import Orchestrail.Proof.ReportIntegration

/-!
# What a turn does with the launches of a leaf

A leaf is launched by asking for its preparation, and each launch is put on record in the task.
Three commands launch: a ready workspace, a review pass with findings, and a failure that is
retried. Every other turn is calm.
-/

namespace Orchestrail

open Std Table Outcome

/-- The launches of a leaf kind a task has on record. -/
def TaskRuntime.launched (t : TaskRuntime) (kind : LeafKind) : Nat :=
  (t.leafAttempts[kind.asStr]?).getD 0

@[simp] theorem TaskRuntime.launched_leafAttempt (t : TaskRuntime) (kind : LeafKind) :
    (t.leafAttempt kind).launched kind = satAdd (t.launched kind) 1 := by
  simp [launched, leafAttempt]

theorem TaskRuntime.launched_leafAttempt_of_ne (t : TaskRuntime) {kind other : LeafKind}
    (h : kind.asStr ≠ other.asStr) : (t.leafAttempt kind).launched other = t.launched other := by
  simp [launched, leafAttempt, ExtTreeMap.getElem?_insert, h]

structure Paced (t u : TaskRuntime) : Prop where
  implement : u.launched .implement = t.launched .implement
  fix : u.launched .fix = t.launched .fix
  phase : u.phase = t.phase ∨ 2 ≤ u.phase.rank

/-- Every task of the later table stood in the earlier one, with the same launches. -/
def Still (m m' : StringMap TaskRuntime) : Prop :=
  ∀ (id : String) (u : TaskRuntime), m'[id]? = some u → ∃ t, m[id]? = some t ∧ Paced t u

section Still

variable {t u : TaskRuntime} {m m' : StringMap TaskRuntime}

theorem Paced.refl : Paced t t := ⟨rfl, rfl, .inl rfl⟩

/-- A task whose record of attempts is untouched. -/
theorem Paced.of_attempts (ha : u.leafAttempts = t.leafAttempts)
    (hp : u.phase = t.phase ∨ 2 ≤ u.phase.rank) : Paced t u :=
  ⟨by rw [TaskRuntime.launched, TaskRuntime.launched, ha],
    by rw [TaskRuntime.launched, TaskRuntime.launched, ha], hp⟩

/-- A step to a phase behind the leaves. -/
theorem Paced.moved (b : TaskPhase) (ha : u.leafAttempts = t.leafAttempts) (hu : u.phase = b)
    (hb : 2 ≤ b.rank) : Paced t u := .of_attempts ha (.inr (hu ▸ hb))

/-- Another attempt of a review is not a launch of a leaf. -/
theorem Paced.review (ha : u.leafAttempts = (t.leafAttempt .review).leafAttempts)
    (hp : u.phase = t.phase ∨ 2 ≤ u.phase.rank) : Paced t u := by
  have h := Paced.of_attempts ha (u := u) (t := { t.leafAttempt .review with phase := u.phase })
    (.inl rfl)
  exact ⟨h.implement.trans (t.launched_leafAttempt_of_ne (by decide)),
    h.fix.trans (t.launched_leafAttempt_of_ne (by decide)), hp⟩

theorem Paced.trans {v : TaskRuntime} (h : Paced t u) (h' : Paced u v) : Paced t v := by
  refine ⟨h'.implement.trans h.implement, h'.fix.trans h.fix, ?_⟩
  rcases h'.phase with hp | hp
  · rw [hp]; exact h.phase
  · exact .inr hp

theorem Still.refl : Still m m := fun _ u hu => ⟨u, hu, .refl⟩

theorem Still.of_eq (h : m' = m) : Still m m' := h ▸ .refl

theorem Still.empty : Still m ∅ := by
  intro id u hu
  simp at hu

theorem Still.trans {m'' : StringMap TaskRuntime} (h : Still m m') (h' : Still m' m'') :
    Still m m'' := by
  intro id u hu
  obtain ⟨t, ht, htu⟩ := h' id u hu
  obtain ⟨s, hs, hst⟩ := h id t ht
  exact ⟨s, hs, hst.trans htu⟩

theorem Still.insert {id : String} (ht : m[id]? = some t) (h : Paced t u) :
    Still m (m.insert id u) := by
  intro k v hv
  rw [ExtTreeMap.getElem?_insert] at hv
  by_cases hk : id = k
  · subst hk
    obtain rfl : u = v := by simpa using hv
    exact ⟨t, ht, h⟩
  · exact ⟨v, by simpa [hk] using hv, .refl⟩

theorem Still.updateEach {missing : String → ProcessorError}
    {f : String → TaskRuntime → Checked TaskRuntime} {ids : List String} (hnd : ids.Nodup)
    (hf : ∀ (id : String) (t u : TaskRuntime), m[id]? = some t → f id t = .ok u → Paced t u)
    (h : Table.updateEach missing f ids m = .ok m') : Still m m' := by
  obtain ⟨hin, hout⟩ := updateEach_getElem? hnd h
  intro k u hu
  by_cases hk : k ∈ ids
  · obtain ⟨t, u', ht, hfu, hu'⟩ := hin k hk
    obtain rfl : u' = u := Option.some.inj (hu'.symm.trans hu)
    exact ⟨t, ht, hf k t u' ht hfu⟩
  · exact ⟨u, (hout k hk) ▸ hu, .refl⟩

end Still

/-- The leaf an effect launches. -/
def Effect.launch : Effect → Option (String × LeafKind)
  | .prepareTaskLeaf id kind => some (id, kind)
  | _ => none

namespace Processor

variable {p q : Processor}

/-- A turn that leaves the launches alone. -/
structure Calm (p : Processor) (x : Processor × List Effect) : Prop where
  tasks : Still p.state.tasks x.1.state.tasks
  quiet : ∀ e ∈ x.2, e.launch = none

theorem calm_nil (h : Still p.state.tasks q.state.tasks) : p.Calm (q, []) := ⟨h, by simp⟩

theorem calm_one {e : Effect} (h : Still p.state.tasks q.state.tasks) (he : e.launch = none) :
    p.Calm (q, [e]) := ⟨h, by simpa using he⟩

theorem calm_two {e e' : Effect} (h : Still p.state.tasks q.state.tasks) (he : e.launch = none)
    (he' : e'.launch = none) : p.Calm (q, [e, e']) := ⟨h, by simp [he, he']⟩

/-- A calm turn after a steady rewrite of the tasks. -/
theorem Calm.after {p' : Processor} {x : Processor × List Effect} (h : p'.Calm x)
    (hs : Still p.state.tasks p'.state.tasks) : p.Calm x := ⟨hs.trans h.tasks, h.quiet⟩

theorem escalate_calm {id reason : String} {t u : TaskRuntime} (ht : p.state.tasks[id]? = some t)
    (ha : u.leafAttempts = t.leafAttempts) : p.Calm (p.escalate id u reason) :=
  calm_one (.insert ht (.moved .escalated ha rfl (by decide))) rfl

section Boundaries

theorem cleanupEffects_quiet (p : Processor) : ∀ e ∈ p.cleanupEffects, e.launch = none := by
  have hjournal : ∀ e ∈ (if p.state.integration.cleanupJournaled then []
      else [Effect.writeJournalAndStatus]), e.launch = none := by
    split <;> simp [Effect.launch]
  unfold cleanupEffects
  intro e he
  simp only at he
  split at he
  · rcases List.mem_append.1 he with he | he
    · exact hjournal e he
    · obtain rfl := List.mem_singleton.1 he
      rfl
  · simp only [List.mem_append, List.mem_flatMap] at he
    rcases he with (he | ⟨t, -, he⟩) | he
    · exact hjournal e he
    · unfold cleanupOf at he
      split at he <;> simp at he
      · rcases he with rfl | rfl <;> rfl
      · rcases he with rfl | rfl <;> rfl
      · obtain rfl := he; rfl
      · obtain rfl := he; rfl
    · simp only [List.mem_cons, List.not_mem_nil, or_false] at he
      rcases he with rfl | rfl <;> rfl

theorem cleanup_calm (h : Still p.state.tasks q.state.tasks) : p.Calm (q, q.cleanupEffects) :=
  ⟨h, q.cleanupEffects_quiet⟩

theorem nextMergeOrReview_calm : Post p.nextMergeOrReview p.Calm := by
  unfold nextMergeOrReview
  split
  · simp only [post_bind]
    exact post_of_forall fun branch => post_ok.2 (calm_one .refl rfl)
  split
  · exact post_ok.2 (calm_one .refl rfl)
  split
  · exact post_ok.2 (calm_one .refl rfl)
  split
  · exact post_ok.2 (calm_one .refl rfl)
  · exact post_ok.2 (calm_one .refl rfl)

theorem afterAdmissionClosed_calm : Post p.afterAdmissionClosed p.Calm := by
  unfold afterAdmissionClosed
  split
  · exact post_ok.2 (calm_nil .refl)
  split
  · simp only [post_bind]
    exact post_of_forall fun branch => post_ok.2 (calm_one .refl rfl)
  · exact post_ok.2 (cleanup_calm .refl)

theorem failIntegration_calm {reason : String} : Post (p.failIntegration reason) p.Calm :=
  post_ok.2 (calm_two .refl rfl rfl)

theorem publishingResumeEffect_calm :
    Post p.publishingResumeEffect fun x => p.Calm (x.1, [x.2]) := by
  unfold publishingResumeEffect
  dsimp only
  split
  · simp only [post_bind]
    exact post_of_forall fun id => post_ok.2 (calm_one .refl rfl)
  split
  · exact post_ok.2 (calm_one .refl rfl)
  split
  · simp only [post_bind]
    exact post_of_forall fun id => post_ok.2 (calm_one .refl rfl)
  split
  · exact post_ok.2 (calm_one .refl rfl)
  · exact post_ok.2 (calm_one .refl rfl)

theorem rollingBoundaryEffect_quiet (p : Processor) : p.rollingBoundaryEffect.launch = none := by
  unfold rollingBoundaryEffect inboxReconciliationEffect
  split <;> rfl

end Boundaries

section CohortTurns

theorem openCohort_calm {batchId base : String} {now : Nat} :
    Post (p.openCohort batchId base now) p.Calm := by
  simp only [openCohort, post_bind, post_require, post_ok]
  intro _
  exact post_check (post_check (calm_one .empty rfl))

theorem dependencyGraphRefreshed_calm {boundary : RefreshBoundary} {outcome : LeafOutcome} :
    Post (p.dependencyGraphRefreshed boundary outcome) p.Calm := by
  unfold dependencyGraphRefreshed
  cases boundary with
  | cohortOpen =>
    simp only [post_bind, post_requirePhase, post_require]
    intro _ _
    split
    · exact post_ok.2 (calm_two .refl rfl rfl)
    · exact post_ok.2 (calm_one .refl rfl)
  | postArchive =>
    simp only [post_bind, post_requirePhase, post_require]
    intro _ _
    split
    · exact post_ok.2 (calm_two .refl rfl rfl)
    · exact post_ok.2 (calm_one .refl rfl)

theorem inboxReconciled_calm {n : Nat} {curation : Bool} :
    Post (p.inboxReconciled n curation) p.Calm := by
  simp only [inboxReconciled, post_bind, post_ok]
  refine post_check (calm_one .refl ?_)
  split <;> rfl

theorem inboxCurated_calm {n : Nat} {mode : InboxCurationMode} {outcome : LeafOutcome} :
    Post (p.inboxCurated n mode outcome) p.Calm := by
  have hhold : ∀ reason, Post (p.holdInbox reason) p.Calm := fun reason =>
    post_ok.2 (calm_one .refl rfl)
  simp only [inboxCurated, post_bind]
  cases outcome with
  | completed author =>
    cases mode with
    | intake => exact post_check (post_ok.2 (calm_one .refl rfl))
    | finalize => exact post_check (post_ok.2 (calm_nil .refl))
  | retryableFailure reason | escalated reason => exact post_check (hhold _)
  | riskElevated author risk wontFixed => exact post_check (hhold _)
  | completedWithWontFix author n => exact post_check (hhold _)

theorem inboxDrained_calm {n : Nat} : Post (p.inboxDrained n) p.Calm := by
  simp only [inboxDrained, post_bind, post_ok]
  exact post_check (calm_one .refl rfl)

theorem inboxFinalizationReconciled_calm {curation : Bool} :
    Post (p.inboxFinalizationReconciled curation) p.Calm := by
  simp only [inboxFinalizationReconciled, post_bind, post_requirePhase, post_ok]
  intro _
  split
  · exact calm_one .refl rfl
  · exact calm_nil .refl

/-- A turn that launches nothing and may admit new tasks. -/
structure Fresh (p : Processor) (x : Processor × List Effect) : Prop where
  tasks : ∀ (id : String) (u : TaskRuntime), x.1.state.tasks[id]? = some u →
    (∃ t, p.state.tasks[id]? = some t ∧ Paced t u) ∨
      p.state.tasks[id]? = none ∧ u.phase = .capturing ∧ ∀ kind, u.launched kind = 0
  quiet : ∀ e ∈ x.2, e.launch = none

theorem Calm.fresh {x : Processor × List Effect} (h : p.Calm x) : p.Fresh x :=
  ⟨fun id u hu => .inl (h.tasks id u hu), h.quiet⟩

/-- **An admission launches nothing**, and its tasks come without launches. -/
theorem admitWave_fresh {candidates : List AdmissionCandidate} {now : Nat} :
    Post (p.admitWave candidates now) p.Fresh := by
  simp only [admitWave, post_bind, post_requirePhase, post_orError, post_ite]
  intro _
  have hstill : Still p.state.tasks (p.closeForBudgetIfNeeded now).state.tasks :=
    .of_eq (closeForBudgetIfNeeded_frame p now).1
  refine post_check fun b _ =>
    ⟨fun _ => afterAdmissionClosed_calm.mono fun x h => (h.after hstill).fresh, fun _ => ?_⟩
  split
  · rename_i ids _
    simp only [post_bind, post_ok]
    intro tasks hinsert
    obtain ⟨-, hin, hout, -⟩ := insertWave_spec hinsert
    refine ⟨fun id u hu => ?_, fun e he => ?_⟩
    · rw [(closeForBudgetIfNeeded_frame _ now).1] at hu
      by_cases hid : id ∈ (candidates.filter fun c => ids.contains c.id).map (·.id)
      · obtain ⟨c, hc, rfl⟩ := List.mem_map.1 hid
        obtain rfl := Option.some.inj (((hin c hc).2.2).symm.trans hu)
        have hnone := (hin c hc).2.1
        rw [(closeForBudgetIfNeeded_frame p now).1] at hnone
        exact .inr ⟨hnone, rfl, fun kind => by simp [TaskRuntime.launched, TaskRuntime.new]⟩
      · exact .inl (hstill id u ((hout id hid).symm.trans hu))
    · obtain ⟨c, -, rfl⟩ := List.mem_map.1 he
      rfl
  · split
    · exact afterAdmissionClosed_calm.mono fun x h => (h.after hstill).fresh
    · exact post_ok.2 ((calm_nil hstill).fresh)

theorem advance_calm {now : Nat} : Post (p.advance now) p.Calm := by
  simp only [advance, post_bind, post_requirePhase, post_ite]
  intro _
  have hstill : Still p.state.tasks (p.closeForBudgetIfNeeded now).state.tasks :=
    .of_eq (closeForBudgetIfNeeded_frame p now).1
  exact ⟨fun _ => post_ok.2 (calm_one hstill rfl), fun _ =>
    afterAdmissionClosed_calm.mono fun x h => h.after hstill⟩

theorem haltFor_calm {close : CloseReason} {reason : String} (hs : Sound p) :
    Post (p.haltFor close reason) p.Calm := by
  unfold haltFor
  simp only [post_bind]
  -- closing admission leaves the tasks alone
  generalize hp' : (if p.state.batch.any (·.admissionClosed.isNone) then p.closeAdmission close
    else p) = p'
  have htasks : p'.state.tasks = p.state.tasks := by rw [← hp']; split <;> rfl
  intro x hx
  simp only [escalateEach, bind_eq_ok] at hx
  obtain ⟨tasks, hupd, hx⟩ := hx
  obtain rfl := Except.ok.inj hx
  have hstill : Still p.state.tasks tasks := by
    have hk : Keyed p'.state.tasks := htasks ▸ keyed hs
    refine htasks ▸ Still.updateEach (nodup_activeIds hk) (fun id t u _ hf => ?_) hupd
    obtain rfl := Except.ok.inj hf
    exact .moved .escalated rfl rfl (by decide)
  refine afterAdmissionClosed_calm.mono fun y hy =>
    post_ok.2 ⟨hstill.trans hy.tasks, fun e he => ?_⟩
  rcases List.mem_append.1 he with he | he
  · obtain ⟨id, -, rfl⟩ := List.mem_map.1 he
    rfl
  · exact hy.quiet e he

/-- A budget check leaves the tasks alone, or escalates the active ones. -/
theorem cohortBudgetChecked_still {next : ModelCall} {now : Nat} (hs : Sound p) :
    Post (p.cohortBudgetChecked next now) fun x => Still p.state.tasks x.1.state.tasks := by
  simp only [cohortBudgetChecked, post_bind, post_orError, post_require, post_ite, post_ok]
  intro limit _ batch _ _
  exact ⟨fun _ => (haltFor_calm hs).mono fun x h => h.tasks, fun _ => .refl⟩

theorem tokenBudgetChecked_still {next : ModelCall} {observation : TokenBudgetObservation}
    (hs : Sound p) :
    Post (p.tokenBudgetChecked next observation) fun x => Still p.state.tasks x.1.state.tasks := by
  have hhalt : ∀ (batch : CohortRuntime) (tokens : Option Nat) (reason : String),
      p.state.batch = some batch →
      Post ((p.withBatch (some { batch with tokenBudgetActualTokens := tokens })).haltForTokenBudget
        reason) fun x => Still p.state.tasks x.1.state.tasks := by
    intro batch tokens reason hb
    have hok := hs.batch batch (by simp [hb])
    refine (haltFor_calm (sound_withBatch hs ?_)).mono fun x h => h.tasks
    rintro b hb
    obtain rfl := Option.some.inj hb
    exact ⟨hok.id, hok.base, hok.wave, hok.budget, hok.tokens, hok.strict, hok.events⟩
  simp only [tokenBudgetChecked, post_bind, post_orError, post_require]
  intro limit _ batch hb _
  cases observation with
  | actual tokens =>
    simp only [post_ite, post_ok]
    exact ⟨fun _ => .refl, fun _ => hhalt batch _ _ hb⟩
  | unavailable => exact hhalt batch _ _ hb

theorem pause_calm : Post p.pause p.Calm := by
  simp only [pause, post_ite, post_ok]
  exact ⟨fun _ => calm_one .refl rfl, fun _ => calm_one .refl rfl⟩

theorem resume_calm : Post p.resume p.Calm := by
  simp only [resume, post_bind, post_require]
  intro _
  split
  · exact post_ok.2 (calm_one .refl (rollingBoundaryEffect_quiet _))
  · exact nextMergeOrReview_calm.mono fun x h => h.after .refl
  · simp only [post_bind]
    exact publishingResumeEffect_calm.mono fun x h => post_ok.2 (h.after .refl)
  all_goals exact post_ok.2 (calm_one .refl rfl)

end CohortTurns

section IntegrationTurns

theorem integrationWorkspaceReady_calm : Post p.integrationWorkspaceReady p.Calm := by
  simp only [integrationWorkspaceReady, post_bind, post_requirePhase]
  intro _
  exact nextMergeOrReview_calm.mono fun x h => h.after .refl

theorem recordMergedTask_calm {id sha : String} : Post (p.recordMergedTask id sha) p.Calm := by
  simp only [recordMergedTask, post_bind, post_taskMut]
  refine post_check fun t ht => nextMergeOrReview_calm.mono fun x h => h.after ?_
  exact .insert ht (.moved .merged rfl rfl (by decide))

theorem quarantineMergedTask_calm {id reason : String} :
    Post (p.quarantineMergedTask id reason) p.Calm := by
  simp only [quarantineMergedTask, post_bind, post_taskMut]
  intro t ht
  have hstill : Still p.state.tasks (p.state.tasks.insert id
      { t with phase := .conflict, reason := some reason }) :=
    .insert ht (.moved .conflict rfl rfl (by decide))
  refine nextMergeOrReview_calm.mono fun x h => post_ok.2 ⟨hstill.trans h.tasks, fun e he => ?_⟩
  rcases List.mem_cons.1 he with rfl | he
  · rfl
  · exact h.quiet e he

theorem taskMerged_calm {id : String} {outcome : MergeOutcome} :
    Post (p.taskMerged id outcome) p.Calm := by
  simp only [taskMerged, post_bind, post_requirePhase, post_taskMut, post_expectTaskPhase]
  intro _ t ht _
  cases outcome with
  | merged sha => exact recordMergedTask_calm
  | needsResolution pre mergePaths paths protectedPaths =>
    simp only [post_bind, post_require, post_orError]
    refine post_check (post_check (post_check fun _ => post_check fun expected _ _ _ => ?_))
    exact post_ok.2 (calm_one (.insert ht (.moved .resolvingMerge rfl rfl (by decide))) rfl)
  | quarantined reason => exact quarantineMergedTask_calm
  | failed reason => exact failIntegration_calm

theorem mergeResolution_calm {id : String} {outcome : LeafOutcome} :
    Post (p.mergeResolution id outcome) p.Calm := by
  simp only [mergeResolution, post_bind, post_requirePhase, post_pending, post_taskMut,
    post_expectTaskPhase]
  intro _ _ t _ _
  cases outcome <;> exact post_ok.2 (calm_one .refl rfl)

theorem mergeResolutionFinalized_calm {id : String} {outcome : MergeOutcome} :
    Post (p.mergeResolutionFinalized id outcome) p.Calm := by
  simp only [mergeResolutionFinalized, post_bind, post_requirePhase, post_pending, post_taskMut,
    post_expectTaskPhase]
  intro _ _ t _ _
  cases outcome with
  | merged sha => exact recordMergedTask_calm.mono fun x h => h.after .refl
  | quarantined reason => exact quarantineMergedTask_calm.mono fun x h => h.after .refl
  | failed reason => exact failIntegration_calm
  | needsResolution pre mergePaths paths protectedPaths => exact post_error

theorem mergeResolutionAborted_calm {id reason : String} :
    Post (p.mergeResolutionAborted id reason) p.Calm := by
  simp only [mergeResolutionAborted, post_bind, post_requirePhase, post_pending, post_taskMut,
    post_expectTaskPhase]
  intro _ _ t _ _
  exact quarantineMergedTask_calm.mono fun x h => h.after .refl

theorem integrationVerified_calm {head : String} {outcome : VerificationOutcome} :
    Post (p.integrationVerified head outcome) p.Calm := by
  simp only [integrationVerified, post_bind, post_requirePhase, post_require]
  intro _
  refine post_check fun _ => post_check ?_
  cases outcome with
  | passed | exempt reason =>
    simp only [post_bind]
    exact post_of_forall fun id => post_ok.2 (calm_one .refl rfl)
  | failed signature reason => exact failIntegration_calm.mono fun x h => h.after .refl
  | blocked reason => exact post_ok.2 (calm_one .refl rfl)

theorem integrationReview_calm {outcome : ReviewOutcome} :
    Post (p.integrationReview outcome) p.Calm := by
  have hfail : ∀ (p' : Processor) (reason : String), p'.state.tasks = p.state.tasks →
      Post (p'.failIntegration reason) p.Calm := fun p' reason h =>
    failIntegration_calm.mono fun x hx => hx.after (.of_eq h)
  simp only [integrationReview, post_bind, post_requirePhase]
  intro _
  cases outcome with
  | clean sha =>
    simp only [post_bind, post_require, post_ite, post_ok]
    exact post_check fun _ => ⟨fun _ => hfail _ _ rfl, fun _ => calm_one .refl rfl⟩
  | findings signature n ids =>
    simp only [post_bind, post_ite]
    refine post_check ⟨fun _ => hfail _ _ rfl, fun _ => ?_⟩
    split
    · exact hfail _ _ rfl
    · exact post_ok.2 (calm_one .refl rfl)
  | incomplete =>
    simp only [post_ite]
    exact ⟨fun _ => hfail _ _ rfl, fun _ => post_ok.2 (calm_one .refl rfl)⟩
  | escalated reason => exact hfail _ _ rfl
  | cleanRiskElevated sha risk => exact hfail _ _ rfl
  | findingsRiskElevated signature risk n ids => exact hfail _ _ rfl

theorem integrationFix_calm {outcome : LeafOutcome} : Post (p.integrationFix outcome) p.Calm := by
  simp only [integrationFix, post_bind, post_requirePhase]
  intro _
  cases outcome with
  | completed author => exact post_ok.2 (calm_one .refl rfl)
  | completedWithWontFix author n => exact post_ok.2 (calm_one .refl rfl)
  | retryableFailure reason | escalated reason => exact failIntegration_calm
  | riskElevated author risk wontFixed => exact failIntegration_calm

theorem integrationFixCommitted_calm {head : String} :
    Post (p.integrationFixCommitted head) p.Calm := by
  simp only [integrationFixCommitted, post_bind, post_requirePhase, post_ite]
  intro _
  refine post_check ⟨fun _ => ?_, fun _ => post_ok.2 (calm_one .refl rfl)⟩
  exact failIntegration_calm.mono fun x h => h.after .refl

/-- A move of every merged task to a phase behind the leaves. -/
theorem moveMerged_still {operation : String} {move : TaskRuntime → TaskRuntime} (b : TaskPhase)
    (ha : ∀ t, (move t).leafAttempts = t.leafAttempts) (hm : ∀ t, (move t).phase = b)
    (hb : 2 ≤ b.rank) : Post (p.moveMerged operation move) (Still p.state.tasks) := by
  intro tasks h
  refine .updateEach (nodup_elems _) (fun id t u _ hf => ?_) h
  simp only [bind_unit_eq_ok, expectTaskPhase_eq_ok] at hf
  obtain ⟨-, hf⟩ := hf
  obtain rfl := Except.ok.inj hf
  exact .moved b (ha t) (hm t) hb

theorem published_calm {head : String} {pushed : Bool} :
    Post (p.published head pushed) p.Calm := by
  simp only [published, post_bind, post_requirePhase, post_require]
  intro _
  refine post_check fun _ _ => ?_
  refine (moveMerged_still .published ?_ ?_ (by decide)).mono fun tasks h =>
    post_ok.2 (calm_one h rfl)
  · exact fun _ => rfl
  · exact fun _ => rfl

theorem publicationRejected_calm {reason : String} :
    Post (p.publicationRejected reason) p.Calm := by
  simp only [publicationRejected, post_bind, post_requirePhase, post_require]
  intro _ _ _
  refine (moveMerged_still .escalated ?_ ?_ (by decide)).mono fun tasks h => ?_
  · exact fun _ => rfl
  · exact fun _ => rfl
  generalize hq : ((p.withTasks tasks).withIntegration
    { p.state.integration with mergedTasks := ∅, failedReason := some reason }).withPhase .cleaning = q
  have hquiet := q.cleanupEffects_quiet
  split
  · rename_i cleanup hcleanup
    rw [hcleanup] at hquiet
    refine post_ok.2 ⟨by rw [← hq]; exact h, fun e he => ?_⟩
    simp only [List.mem_cons, List.mem_append, List.mem_map] at he
    rcases he with rfl | ⟨id, -, rfl⟩ | he
    · rfl
    · rfl
    · exact hquiet e (List.mem_cons_of_mem _ he)
  · exact post_error

theorem publicationAwaitingApproval_calm {reason : String} :
    Post (p.publicationAwaitingApproval reason) p.Calm := by
  simp only [publicationAwaitingApproval, post_bind, post_requirePhase, post_require, post_ok]
  intro _ _ _
  exact calm_one .refl rfl

theorem publicationReanchorRequired_calm {reason : String} {target : PublicationReanchorTarget} :
    Post (p.publicationReanchorRequired reason target) p.Calm := by
  simp only [publicationReanchorRequired, post_bind, post_requirePhase, post_require, post_ite]
  intro _ _ _
  refine ⟨fun _ => post_ok.2 (calm_two .refl rfl rfl), fun _ => ?_⟩
  exact post_of_forall fun id => post_ok.2 (calm_one .refl rfl)

theorem publicationReanchored_calm : Post p.publicationReanchored p.Calm := by
  simp only [publicationReanchored, post_bind, post_requirePhase, post_require]
  intro _ _ _
  refine (moveMerged_still .ready ?_ ?_ (by decide)).mono fun tasks h =>
    post_of_forall fun branch => post_ok.2 (calm_one h rfl)
  · exact fun _ => rfl
  · exact fun _ => rfl

theorem holdFailedPublishedCi_calm {reason : String} :
    Post (p.holdFailedPublishedCi reason) p.Calm := by
  simp only [holdFailedPublishedCi, post_bind, post_require, post_ok]
  exact post_check fun _ => calm_two .refl rfl rfl

theorem repairFailedCi_calm {head signature : String} :
    Post (p.repairFailedCi head signature) p.Calm := by
  have hhold : ∀ (p' : Processor) (reason : String), p'.state.tasks = p.state.tasks →
      Post (p'.holdFailedPublishedCi reason) fun x =>
        p.Calm (x.1, Effect.notify .publishCiFailed head :: x.2) := by
    intro p' reason h
    refine holdFailedPublishedCi_calm.mono fun x hx => ⟨(hx.after (.of_eq h)).tasks, fun e he => ?_⟩
    rcases List.mem_cons.1 he with rfl | he
    · rfl
    · exact hx.quiet e he
  unfold repairFailedCi
  dsimp only
  split
  · simp only [post_bind]
    exact Post.mono (hhold _ _ rfl) fun x hx => post_ok.2 hx
  split
  · simp only [post_bind]
    exact Post.mono (hhold _ _ rfl) fun x hx => post_ok.2 hx
  · exact post_ok.2 (calm_two .refl rfl rfl)

theorem ciVerified_calm {outcome : CiOutcome} : Post (p.ciVerified outcome) p.Calm := by
  simp only [ciVerified, post_bind, post_requirePhase, post_orError, post_require]
  intro _ head _
  refine post_check (post_check fun _ => ?_)
  cases outcome with
  | passed => exact post_ok.2 (calm_one .refl rfl)
  | localOnly | disabled => exact post_ok.2 (calm_one .refl rfl)
  | bestEffortDegraded reason => exact post_ok.2 (calm_one .refl rfl)
  | requiredUnconfirmed reason => exact post_ok.2 (calm_two .refl rfl rfl)
  | failed signature reason => exact repairFailedCi_calm.mono fun x h => h.after .refl

theorem ciFixPrepared_calm {outcome : CiFixPreparationOutcome} :
    Post (p.ciFixPrepared outcome) p.Calm := by
  simp only [ciFixPrepared, post_bind, post_requirePhase]
  intro _
  cases outcome with
  | completed => exact post_ok.2 (calm_one .refl rfl)
  | skipped | fallback => exact post_ok.2 (calm_one .refl rfl)
  | sandboxDowngraded scope => exact post_ok.2 (calm_two .refl rfl rfl)
  | escalated reason => exact holdFailedPublishedCi_calm.mono fun x h => h.after .refl

theorem settleCiFix_calm {outcome : LeafOutcome} : Post (p.settleCiFix outcome) p.Calm := by
  unfold settleCiFix
  cases outcome with
  | completed author => exact post_ok.2 (calm_one .refl rfl)
  | retryableFailure reason | escalated reason => exact holdFailedPublishedCi_calm
  | riskElevated author risk wontFixed => exact holdFailedPublishedCi_calm
  | completedWithWontFix author n => exact holdFailedPublishedCi_calm

theorem ciFix_calm {outcome : LeafOutcome} : Post (p.ciFix outcome) p.Calm := by
  simp only [ciFix, post_bind, post_requirePhase]
  intro _
  exact settleCiFix_calm.mono fun x h => post_ok.2 ⟨h.tasks, h.quiet⟩

theorem ciFixCommitted_calm {head : String} : Post (p.ciFixCommitted head) p.Calm := by
  simp only [ciFixCommitted, post_bind, post_requirePhase, post_ok]
  intro _
  exact post_check (calm_one .refl rfl)

end IntegrationTurns

section CleaningTurns

theorem knowledgeCurated_calm {outcome : LeafOutcome} :
    Post (p.knowledgeCurated outcome) p.Calm := by
  simp only [knowledgeCurated, post_bind, post_requirePhase]
  intro _
  refine post_of_forall fun x => ?_
  split
  · exact post_ok.2 (cleanup_calm .refl)
  · exact post_ok.2 (cleanup_calm .refl)

theorem knowledgeCurationPrepared_calm {outcome : KnowledgeCurationPreparationOutcome} :
    Post (p.knowledgeCurationPrepared outcome) p.Calm := by
  simp only [knowledgeCurationPrepared, post_bind, post_requirePhase]
  intro _
  refine post_of_forall fun x => ?_
  cases outcome with
  | required => exact post_ok.2 (calm_one .refl rfl)
  | alreadyCompleted => exact post_ok.2 (cleanup_calm .refl)
  | skipped => exact post_ok.2 (cleanup_calm .refl)

theorem archivalPrepared_calm {outcome : ArchivalPreparationOutcome} :
    Post (p.archivalPrepared outcome) p.Calm := by
  simp only [archivalPrepared, post_bind, post_requirePhase, post_require, post_orError]
  intro _ _ batch _
  refine post_check (post_check (post_check (post_check (post_check (post_check fun _ => ?_)))))
  cases outcome with
  | skipped => exact post_ok.2 (cleanup_calm .refl)
  | reconfirmRequired checks =>
    simp only [post_bind, post_require, post_orError, post_ok]
    refine post_check fun _ head _ => post_check (calm_one .refl rfl)

theorem archiveCiReconfirmed_calm {head : String} {outcome : CiOutcome} :
    Post (p.archiveCiReconfirmed head outcome) p.Calm := by
  simp only [archiveCiReconfirmed, post_bind, post_requirePhase, post_require, post_orError]
  intro _ published _
  refine post_check fun _ _ _ => post_check ?_
  cases outcome with
  | passed => exact post_ok.2 (cleanup_calm .refl)
  | requiredUnconfirmed reason => exact ciVerified_calm.mono fun x h => h.after .refl
  | failed signature reason => exact ciVerified_calm.mono fun x h => h.after .refl
  | localOnly | disabled | bestEffortDegraded reason => exact post_error

theorem cleanupComplete_calm : Post p.cleanupComplete p.Calm := by
  simp only [cleanupComplete, post_bind, post_requirePhase, post_require, post_ite, post_ok]
  intro _
  refine post_check fun _ => ⟨fun _ => calm_one .refl rfl, fun _ => ?_⟩
  refine calm_two (fun id u hu => ?_) rfl rfl
  have hu : (p.state.tasks.map fun _ t => if t.phase = .published then { t with phase := .done } else t)[id]?
      = some u := hu
  rw [ExtTreeMap.getElem?_map, Option.map_eq_some_iff] at hu
  obtain ⟨t, ht, rfl⟩ := hu
  refine ⟨t, ht, ?_⟩
  split
  · exact .moved .done rfl rfl (by decide)
  · exact .refl

theorem recover_calm {ws : StringSet} (hs : Sound p) : Post (p.recover ws) p.Calm := by
  simp only [recover, post_bind, post_require, post_ite, post_ok]
  intro _
  refine ⟨fun _ => calm_one .refl rfl, fun _ => ?_⟩
  rintro ⟨tasks, work, hold⟩ hscan
  obtain ⟨rfl, hnone, -⟩ := recoverTasks_sound hs hscan
  dsimp only
  cases hold with
  | some reason => exact post_ok.2 (calm_one .refl rfl)
  | none =>
    obtain ⟨-, rfl⟩ := hnone rfl
    -- the work of the pass is reconciliation only
    have hwork : ∀ e ∈ p.taskList.flatMap (recoveryWork ws), e.launch = none := by
      intro e he
      obtain ⟨t, -, he⟩ := List.mem_flatMap.1 he
      unfold recoveryWork at he
      split at he
      · obtain rfl := List.mem_singleton.1 he
        rfl
      · cases he
    generalize hq : ({ (p.withTasks p.state.tasks).withPhase
      ((p.withTasks p.state.tasks).recoveredPhase p.recoveryTarget) with recoveryTarget := none } :
        Processor) = q
    have hstill : Still p.state.tasks q.state.tasks := .of_eq (by rw [← hq]; rfl)
    simp only [post_ite]
    refine ⟨fun _ => post_ok.2 ⟨hstill, fun e he => ?_⟩, fun _ => ⟨fun _ => ?_, fun _ =>
      ⟨fun _ => ?_, fun _ => ⟨fun _ => ?_, fun _ => post_ok.2 ⟨hstill, hwork⟩⟩⟩⟩⟩
    · rcases mem_orderCleanup he with he | he
      · exact q.cleanupEffects_quiet e he
      · exact hwork e he
    · simp only [post_bind]
      refine nextMergeOrReview_calm.mono fun x h => post_ok.2 ⟨(h.after hstill).tasks, fun e he => ?_⟩
      rcases List.mem_append.1 he with he | he
      · exact hwork e he
      · exact h.quiet e he
    · unfold resumePhase
      split
      · exact post_ok.2 (calm_one hstill (rollingBoundaryEffect_quiet q))
      · exact nextMergeOrReview_calm.mono fun x h => h.after hstill
      · simp only [post_bind]
        exact publishingResumeEffect_calm.mono fun x h => post_ok.2 (h.after hstill)
      · exact post_ok.2 (calm_one hstill rfl)
    · simp only [post_bind]
      refine publishingResumeEffect_calm.mono fun x h =>
        post_ok.2 ⟨(h.after hstill).tasks, fun e he => ?_⟩
      rcases List.mem_append.1 he with he | he
      · exact hwork e he
      · exact h.quiet e he

end CleaningTurns

section TaskTurns

/-- One leaf of one task is launched: its count goes up by one and the task stands in its phase. -/
structure Launches (p : Processor) (id : String) (kind : LeafKind) (t : TaskRuntime)
    (x : Processor × List Effect) : Prop where
  before : p.state.tasks[id]? = some t
  task : ∃ u, x.1.state.tasks[id]? = some u ∧ u.phase = leafPhase kind ∧
    u.launched kind = satAdd (t.launched kind) 1 ∧
    ∀ other ∈ [LeafKind.implement, LeafKind.fix], other ≠ kind → u.launched other = t.launched other
  rest : ∀ k, k ≠ id → x.1.state.tasks[k]? = p.state.tasks[k]?
  effects : x.2 = [.prepareTaskLeaf id kind]

/-- The launch of a leaf by its reserved attempt. -/
theorem launches_attempt {id : String} {kind : LeafKind} {t u : TaskRuntime}
    (hkind : kind = .implement ∨ kind = .fix) (ht : p.state.tasks[id]? = some t)
    (ha : u.leafAttempts = t.leafAttempts) (hu : u.phase = leafPhase kind) :
    p.Launches id kind t (p.withTask id (u.leafAttempt kind), [.prepareTaskLeaf id kind]) := by
  have hl : ∀ other, u.launched other = t.launched other := fun other => by
    rw [TaskRuntime.launched, TaskRuntime.launched, ha]
  refine ⟨ht, ⟨u.leafAttempt kind, by simp [withTask, withTasks], hu, ?_, ?_⟩, fun k hk => ?_, rfl⟩
  · rw [TaskRuntime.launched_leafAttempt, hl]
  · intro other hother hne
    refine (u.launched_leafAttempt_of_ne ?_).trans (hl other)
    simp only [List.mem_cons, List.not_mem_nil, or_false] at hother
    rcases hkind with rfl | rfl <;> rcases hother with rfl | rfl <;>
      first | exact absurd rfl hne | decide
  · simp [withTask, withTasks, ExtTreeMap.getElem?_insert, Ne.symm hk]

theorem workspaceReady_launches {id : String} (hs : Sound p) :
    Post (p.workspaceReady id) fun x => ∃ t, t.phase = .capturing ∧ p.Launches id .implement t x := by
  simp only [workspaceReady, post_bind, post_requirePhase, post_taskMut]
  intro _ t ht
  rw [(hs.tasks id t ht).native]
  simp only [post_bind, post_expectTaskPhase, post_ok]
  intro hph
  exact ⟨t, hph, launches_attempt (.inl rfl) ht rfl rfl⟩

theorem workspaceFailed_calm {id reason : String} : Post (p.workspaceFailed id reason) p.Calm := by
  simp only [workspaceFailed, post_bind, post_taskMut, post_expectTaskPhase, post_ok]
  intro t ht _
  exact escalate_calm ht rfl

theorem finishLeaf_calm {id : String} {t u : TaskRuntime} {kind : LeafKind} {author : Option String}
    {wontFixed : Option Nat} (ht : p.state.tasks[id]? = some t)
    (ha : u.leafAttempts = t.leafAttempts) :
    Post (p.finishLeaf id u kind author wontFixed) p.Calm := by
  have hcommit : ∀ v : TaskRuntime, v.leafAttempts = t.leafAttempts → v.phase = .committing →
      p.Calm (p.withTask id v, [.commitTask id]) := fun v hv hp =>
    calm_one (.insert ht (.moved .committing hv hp (by decide))) rfl
  unfold finishLeaf
  cases wontFixed with
  | none => exact post_ok.2 (hcommit _ ha rfl)
  | some n =>
    simp only [post_bind, post_require]
    intro _
    split
    · exact post_ok.2 (escalate_calm ht ha)
    · exact post_ok.2 (hcommit _ ha rfl)

theorem finishRaised_calm {id : String} {t : TaskRuntime} {kind : LeafKind} {author : Option String}
    {risk : Risk} {wontFixed : Option Nat} (ht : p.state.tasks[id]? = some t) :
    Post (p.finishRaised id t kind author risk wontFixed) p.Calm := by
  unfold finishRaised
  split
  · exact post_ok.2 (escalate_calm ht rfl)
  · exact finishLeaf_calm ht rfl

/-- A failure that may be retried: another launch below the limit, else the escalation. -/
theorem retryableFailure_spec {id reason : String} :
    Post (p.taskLeaf id (.retryableFailure reason)) fun x => ∃ kind t,
      (kind = .implement ∨ kind = .fix) ∧ p.state.tasks[id]? = some t ∧ t.phase = leafPhase kind ∧
      (t.launched kind < p.config.leafMaxAttempts.toNat ∧ p.Launches id kind t x ∨
        p.config.leafMaxAttempts.toNat ≤ t.launched kind ∧
          x = p.escalate id t s!"{reason}; retry limit exhausted") := by
  simp only [taskLeaf, post_bind, post_requirePhase, post_taskMut]
  intro _ t ht kind hkind
  obtain ⟨hph, hk⟩ : t.phase = leafPhase kind ∧ (kind = .implement ∨ kind = .fix) := by
    rcases leafOf_eq_ok hkind with ⟨h, rfl⟩ | ⟨h, rfl⟩
    · exact ⟨h, .inl rfl⟩
    · exact ⟨h, .inr rfl⟩
  simp only [post_ite, post_ok]
  refine ⟨fun hlt => ⟨kind, t, hk, ht, hph, .inl ⟨hlt, launches_attempt hk ht rfl hph⟩⟩, fun hge =>
    ⟨kind, t, hk, ht, hph, .inr ⟨Nat.not_lt.1 hge, rfl⟩⟩⟩

/-- Every other result of a leaf is calm. -/
theorem taskLeaf_calm {id : String} {outcome : LeafOutcome}
    (h : ∀ reason, outcome ≠ .retryableFailure reason) : Post (p.taskLeaf id outcome) p.Calm := by
  simp only [taskLeaf, post_bind, post_requirePhase, post_taskMut]
  intro _ t ht
  refine post_of_forall fun kind => ?_
  cases outcome with
  | completed author => exact finishLeaf_calm ht rfl
  | riskElevated author risk wontFixed => exact finishRaised_calm ht
  | completedWithWontFix author n => exact finishLeaf_calm ht rfl
  | retryableFailure reason => exact absurd rfl (h reason)
  | escalated reason => exact post_ok.2 (escalate_calm ht rfl)

theorem taskLeafPrepared_calm {id : String} {outcome : TaskLeafPreparationOutcome} :
    Post (p.taskLeafPrepared id outcome) p.Calm := by
  simp only [taskLeafPrepared, post_bind, post_requirePhase, post_taskMut]
  intro _ t ht
  refine post_of_forall fun kind => ?_
  cases outcome with
  | completed => exact finishLeaf_calm ht rfl
  | completedWithWontFix n => exact finishLeaf_calm ht rfl
  | riskElevated risk wontFixed => exact finishRaised_calm ht
  | skipped | fallback => exact post_ok.2 (calm_one .refl rfl)
  | sandboxDowngraded scope => exact post_ok.2 (calm_two .refl rfl rfl)
  | escalated reason => exact post_ok.2 (escalate_calm ht rfl)

theorem taskCommitted_calm {id commit : String} : Post (p.taskCommitted id commit) p.Calm := by
  simp only [taskCommitted, post_bind, post_taskMut, post_expectTaskPhase, post_ite, post_ok]
  refine post_check fun t ht _ => ⟨fun _ => escalate_calm ht rfl, fun _ => ?_⟩
  exact calm_one (.insert ht (.review rfl (.inr (by exact (by decide : 2 ≤ TaskPhase.reviewing.rank)))))
    rfl

theorem concludeReview_calm {id sha : String} {t u : TaskRuntime} (ht : p.state.tasks[id]? = some t)
    (ha : u.leafAttempts = t.leafAttempts) : Post (p.concludeReview id u sha) p.Calm := by
  simp only [concludeReview, post_ite, post_ok]
  exact ⟨fun _ => escalate_calm ht ha, fun _ =>
    calm_nil (.insert ht (.moved .ready ha rfl (by decide)))⟩

theorem recordFindings_launches {id signature : String} {t u : TaskRuntime} {n : Nat}
    {ids : List String} (ht : p.state.tasks[id]? = some t) (ha : u.leafAttempts = t.leafAttempts) :
    Post (p.recordFindings id u signature n ids) fun x => p.Calm x ∨ p.Launches id .fix t x := by
  simp only [recordFindings]
  split
  · exact post_ok.2 (.inl (escalate_calm ht ha))
  split
  · exact post_ok.2 (.inl (escalate_calm ht ha))
  · exact post_ok.2 (.inr (launches_attempt (.inr rfl) ht ha rfl))

/-- A review pass is calm, or it opens a fix round. -/
theorem taskReview_launches {id : String} {outcome : ReviewOutcome} :
    Post (p.taskReview id outcome) fun x =>
      p.Calm x ∨ ∃ t, t.phase = .reviewing ∧ p.Launches id .fix t x := by
  simp only [taskReview, post_bind, post_requirePhase, post_taskMut, post_expectTaskPhase]
  intro _ t ht hph
  have hfix : ∀ {x : Processor × List Effect}, p.Calm x ∨ p.Launches id .fix t x →
      p.Calm x ∨ ∃ t, t.phase = .reviewing ∧ p.Launches id .fix t x := fun h =>
    h.imp_right fun h => ⟨t, hph, h⟩
  cases outcome with
  | clean sha =>
    simp only [post_bind]
    exact post_check ((concludeReview_calm ht rfl).mono fun x => .inl)
  | cleanRiskElevated sha risk =>
    simp only [post_bind]
    refine post_check ?_
    split
    · exact post_ok.2 (.inl (escalate_calm ht rfl))
    · exact (concludeReview_calm (u := { t with risk := some risk }) ht rfl).mono fun x => .inl
  | findings signature n ids =>
    simp only [post_bind]
    exact post_check ((recordFindings_launches ht rfl).mono fun x => hfix)
  | findingsRiskElevated signature risk n ids =>
    simp only [post_bind]
    refine post_check ?_
    split
    · exact post_ok.2 (.inl (escalate_calm ht rfl))
    · exact (recordFindings_launches (u := { t with risk := some risk }) ht rfl).mono fun x => hfix
  | incomplete =>
    simp only [post_ite, post_ok]
    refine ⟨fun _ => .inl (escalate_calm ht rfl), fun _ => .inl ?_⟩
    exact calm_one (.insert ht (.review rfl (.inl rfl))) rfl
  | escalated reason => exact post_ok.2 (.inl (escalate_calm ht rfl))

theorem taskReviewPrepared_launches {id : String} {outcome : TaskReviewPreparationOutcome} :
    Post (p.taskReviewPrepared id outcome) fun x =>
      p.Calm x ∨ ∃ t, t.phase = .reviewing ∧ p.Launches id .fix t x := by
  simp only [taskReviewPrepared, post_bind, post_requirePhase, post_taskMut, post_expectTaskPhase,
    post_ite]
  intro _ t ht hph
  refine ⟨fun _ => post_ok.2 (.inl (escalate_calm ht rfl)), fun _ => ?_⟩
  -- reserving the attempt of the review is steady
  generalize hp' : (if (t.leafAttempts[LeafKind.review.asStr]?).getD 0 = 0 then
    p.withTask id (t.leafAttempt .review) else p) = p'
  have hcases : p' = p ∨ p' = p.withTask id (t.leafAttempt .review) := by
    rw [← hp']; split
    · exact .inr rfl
    · exact .inl rfl
  have hstill : Still p.state.tasks p'.state.tasks := by
    rcases hcases with rfl | rfl
    · exact .refl
    · exact .insert ht (.review rfl (.inl rfl))
  cases outcome with
  | completed outcome =>
    refine taskReview_launches.mono fun x h => ?_
    rcases h with h | ⟨u, hu, h⟩
    · exact .inl (h.after hstill)
    · refine .inr ⟨t, hph, ht, ?_, fun k hk => ?_, h.effects⟩
      · obtain ⟨v, hv, hvp, hvl, hvo⟩ := h.task
        obtain ⟨t', ht', hst⟩ := hstill id u h.before
        obtain rfl : t = t' := Option.some.inj (ht.symm.trans ht')
        refine ⟨v, hv, hvp, hvl.trans (by rw [hst.fix]), fun other ho hne => ?_⟩
        refine (hvo other ho hne).trans ?_
        simp only [List.mem_cons, List.not_mem_nil, or_false] at ho
        rcases ho with rfl | rfl
        · exact hst.implement
        · exact hst.fix
      · refine (h.rest k hk).trans ?_
        rcases hcases with rfl | rfl
        · rfl
        · simp [withTask, withTasks, ExtTreeMap.getElem?_insert, Ne.symm hk]
  | dispatchClaude => exact post_ok.2 (.inl (calm_one hstill rfl))
  | sandboxDowngraded scope => exact post_ok.2 (.inl (calm_two hstill rfl rfl))

end TaskTurns

/-- What an accepted command does with the launches. A budget check only hands on a call. -/
inductive Handled (p : Processor) : ProcessorCommand → Processor × List Effect → Prop
  | fresh {cmd x} (h : p.Fresh x) : p.Handled cmd x
  | checked {cmd x} (hcmd : isBudgetCheck cmd = true) (h : Still p.state.tasks x.1.state.tasks) :
      p.Handled cmd x
  | ready {id t x} (ht : t.phase = .capturing) (h : p.Launches id .implement t x) :
      p.Handled (.workspaceReady id) x
  | findings {cmd id t x} (hcmd : ∀ id reason, cmd ≠ .taskLeaf id (.retryableFailure reason))
      (hcheck : isBudgetCheck cmd = false) (ht : t.phase = .reviewing) (h : p.Launches id .fix t x) :
      p.Handled cmd x
  | retry {id reason kind t x} (hkind : kind = .implement ∨ kind = .fix)
      (ht : t.phase = leafPhase kind) (hlt : t.launched kind < p.config.leafMaxAttempts.toNat)
      (h : p.Launches id kind t x) : p.Handled (.taskLeaf id (.retryableFailure reason)) x

/-- **Every transition** is calm, admits new tasks, or launches one leaf of one task. -/
theorem dispatch_launches {cmd : ProcessorCommand} (hs : Sound p) :
    Post (p.dispatch cmd) (p.Handled cmd) := by
  have hcalm : ∀ {f : Turn}, Post f p.Calm → Post f (p.Handled cmd) := fun h =>
    h.mono fun x hx => .fresh hx.fresh
  cases cmd with
  | pause => exact hcalm pause_calm
  | resume => exact hcalm resume_calm
  | block reason => exact hcalm (post_ok.2 (calm_one .refl rfl))
  | recover ws => exact hcalm (recover_calm hs)
  | openCohort id base now => exact hcalm openCohort_calm
  | admitWave candidates now => exact admitWave_fresh.mono fun x h => .fresh h
  | inboxReconciled n curation => exact hcalm inboxReconciled_calm
  | inboxFinalizationReconciled curation => exact hcalm inboxFinalizationReconciled_calm
  | dependencyGraphRefreshed boundary outcome => exact hcalm dependencyGraphRefreshed_calm
  | inboxCurated n mode outcome => exact hcalm inboxCurated_calm
  | inboxDrained n => exact hcalm inboxDrained_calm
  | tokenBudgetChecked next observation =>
    exact (tokenBudgetChecked_still hs).mono fun x h => .checked rfl h
  | cohortBudgetChecked next now =>
    exact (cohortBudgetChecked_still hs).mono fun x h => .checked rfl h
  | workspaceReady id =>
    exact (workspaceReady_launches hs).mono fun x ⟨t, ht, h⟩ => .ready ht h
  | workspaceFailed id reason => exact hcalm workspaceFailed_calm
  | taskLeafPrepared id outcome => exact hcalm taskLeafPrepared_calm
  | taskLeaf id outcome =>
    by_cases hretry : ∃ reason, outcome = .retryableFailure reason
    · obtain ⟨reason, rfl⟩ := hretry
      refine retryableFailure_spec.mono fun x ⟨kind, t, hkind, ht, hph, h⟩ => ?_
      rcases h with ⟨hlt, h⟩ | ⟨-, rfl⟩
      · exact .retry hkind hph hlt h
      · exact .fresh (escalate_calm ht rfl).fresh
    · exact hcalm (taskLeaf_calm fun reason h => hretry ⟨reason, h⟩)
  | taskCommitted id commit => exact hcalm taskCommitted_calm
  | taskReviewPrepared id outcome =>
    refine taskReviewPrepared_launches.mono fun x h => ?_
    rcases h with h | ⟨t, ht, h⟩
    · exact .fresh h.fresh
    · exact .findings (by simp) rfl ht h
  | taskReview id outcome =>
    refine taskReview_launches.mono fun x h => ?_
    rcases h with h | ⟨t, ht, h⟩
    · exact .fresh h.fresh
    · exact .findings (by simp) rfl ht h
  | advance now => exact hcalm advance_calm
  | integrationWorkspaceReady => exact hcalm integrationWorkspaceReady_calm
  | taskMerged id outcome => exact hcalm taskMerged_calm
  | mergeResolution id outcome => exact hcalm mergeResolution_calm
  | mergeResolutionFinalized id outcome => exact hcalm mergeResolutionFinalized_calm
  | mergeResolutionAborted id reason => exact hcalm mergeResolutionAborted_calm
  | integrationVerified head outcome => exact hcalm integrationVerified_calm
  | integrationReview outcome => exact hcalm integrationReview_calm
  | integrationFix outcome => exact hcalm integrationFix_calm
  | integrationFixCommitted head => exact hcalm integrationFixCommitted_calm
  | published head pushed => exact hcalm published_calm
  | publicationRejected reason => exact hcalm publicationRejected_calm
  | publicationAwaitingApproval reason => exact hcalm publicationAwaitingApproval_calm
  | publicationReanchorRequired reason target => exact hcalm publicationReanchorRequired_calm
  | publicationReanchored => exact hcalm publicationReanchored_calm
  | ciVerified outcome => exact hcalm ciVerified_calm
  | ciFix outcome => exact hcalm ciFix_calm
  | ciFixPrepared outcome => exact hcalm ciFixPrepared_calm
  | ciFixCommitted head => exact hcalm ciFixCommitted_calm
  | knowledgeCurationPrepared outcome => exact hcalm knowledgeCurationPrepared_calm
  | knowledgeCurated outcome => exact hcalm knowledgeCurated_calm
  | archivalPrepared outcome => exact hcalm archivalPrepared_calm
  | archiveCiReconfirmed head outcome => exact hcalm archiveCiReconfirmed_calm
  | cleanupComplete => exact hcalm cleanupComplete_calm

end Processor

end Orchestrail
