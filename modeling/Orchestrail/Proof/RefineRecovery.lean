import Orchestrail.Proof.RefineCleaning

/-!
# The reducer refines the course

Phase 0, and with it the whole reducer: `dispatch_refines` and `apply_refines`, and the same for a
restart (`fromCheckpoint_spec`).
-/

namespace Orchestrail

open Std Table

namespace Processor

variable {p q : Processor} {effects : List Effect}

section Recovery

/-- What Phase 0 asks for a task whose workspace was verified. -/
def recoveryWork (workspacesPresent : StringSet) (task : TaskRuntime) : List Effect :=
  if task.phase ≠ .done ∧ task.phase ≠ .conflict ∧ task.phase ≠ .escalated ∧
      workspacesPresent.contains task.id then [.reconcile task.id]
  else []

theorem recoverTask_eq {ws : StringSet} {t : TaskRuntime} (ht : t.importedRecoveryIntent = none) :
    recoverTask ws t =
      if t.phase.isActive ∧ ¬ws.contains t.id then
        .ok (.hold s!"recovery: active task {t.id} has no verified managed workspace")
      else .ok (.keep t (recoveryWork ws t)) := by
  simp only [recoverTask, recoveryWork, ht]
  split
  · rfl
  split <;> rfl

/-- A native task is never rewritten by Phase 0, so the pass only collects its work. -/
theorem recoverTasks_spec {ws : StringSet} :
    ∀ {entries : List (String × TaskRuntime)} {tasks tasks' : StringMap TaskRuntime}
      {effects effects' : List Effect} {hold : Option String},
      (∀ e ∈ entries, tasks[e.1]? = some e.2 ∧ e.2.importedRecoveryIntent = none) →
      recoverTasks ws entries tasks effects = .ok (tasks', effects', hold) →
      tasks' = tasks ∧
        (hold = none → (∀ e ∈ entries, e.2.phase.isActive = true → e.2.id ∈ ws) ∧
          effects' = effects ++ entries.flatMap fun e => recoveryWork ws e.2) ∧
        (hold ≠ none → ∃ e ∈ entries, e.2.phase.isActive = true ∧ e.2.id ∉ ws)
  | [], tasks, tasks', effects, effects', hold, _, h => by
    obtain ⟨rfl, rfl, rfl⟩ : tasks = tasks' ∧ effects = effects' ∧ none = hold := by
      simpa [recoverTasks] using h
    simp
  | (id, t) :: entries, tasks, tasks', effects, effects', hold, hall, h => by
    obtain ⟨⟨ht, hnative⟩, hall⟩ := List.forall_mem_cons.1 hall
    simp only [recoverTasks, recoverTask_eq hnative] at h
    split at h
    · rename_i hact
      obtain ⟨rfl, rfl, rfl⟩ : tasks = tasks' ∧ effects = effects' ∧ some _ = hold := by
        simpa [bind, Except.bind] using h
      refine ⟨rfl, by simp, fun _ => ⟨(id, t), List.mem_cons_self, hact.1, ?_⟩⟩
      simpa [ExtTreeSet.contains_iff_mem] using hact.2
    · rename_i hact
      have hself : tasks.insert id t = tasks := by
        refine ExtTreeMap.ext_getElem? fun k => ?_
        rw [ExtTreeMap.getElem?_insert]
        by_cases hk : id = k
        · subst hk; simp [ht]
        · simp [hk]
      simp only [bind, Except.bind, hself] at h
      obtain ⟨rfl, hnone, hsome⟩ := recoverTasks_spec hall h
      refine ⟨rfl, fun hn => ?_, fun hs => ?_⟩
      · obtain ⟨hpresent, heff⟩ := hnone hn
        refine ⟨?_, by rw [heff, List.flatMap_cons, List.append_assoc]⟩
        refine List.forall_mem_cons.2 ⟨fun ha => ?_, hpresent⟩
        by_contra hws
        exact hact ⟨ha, by simpa [ExtTreeSet.contains_iff_mem] using hws⟩
      · obtain ⟨e, he, hact⟩ := hsome hs
        exact ⟨e, List.mem_cons_of_mem _ he, hact⟩

/-- The pass over the tasks of a valid processor. -/
theorem recoverTasks_sound (hs : Sound p) {ws : StringSet} {tasks : StringMap TaskRuntime}
    {hold : Option String}
    (h : recoverTasks ws p.state.tasks.toList p.state.tasks [] = .ok (tasks, effects, hold)) :
    tasks = p.state.tasks ∧
      (hold = none → (∀ id m, p.course.task id = some m → m.phase.isActive = true → id ∈ ws) ∧
        effects = p.taskList.flatMap (recoveryWork ws)) ∧
      (hold ≠ none → ∃ id m, p.course.task id = some m ∧ m.phase.isActive = true ∧ id ∉ ws) := by
  have hentries : ∀ e ∈ p.state.tasks.toList,
      p.state.tasks[e.1]? = some e.2 ∧ e.2.importedRecoveryIntent = none := by
    intro e he
    have ht := ExtTreeMap.mem_toList_iff_getElem?_eq_some.1 he
    exact ⟨ht, (hs.tasks e.1 e.2 ht).native⟩
  obtain ⟨rfl, hnone, hsome⟩ := recoverTasks_spec hentries h
  refine ⟨rfl, fun hn => ?_, fun hn => ?_⟩
  · obtain ⟨hpresent, heff⟩ := hnone hn
    refine ⟨fun id m hm hact => ?_, ?_⟩
    · obtain ⟨t, ht, rfl⟩ := Option.map_eq_some_iff.1 hm
      have := hpresent (id, t) (ExtTreeMap.mem_toList_iff_getElem?_eq_some.2 ht) hact
      rwa [(hs.tasks id t ht).key] at this
    · rw [heff, List.nil_append, taskList, vals, List.flatMap_map]
  · obtain ⟨⟨id, t⟩, he, hact, hws⟩ := hsome hn
    have ht := ExtTreeMap.mem_toList_iff_getElem?_eq_some.1 he
    refine ⟨id, _, task_eq ht, hact, ?_⟩
    rwa [(hs.tasks id t ht).key] at hws

/-- Without recovery work no task is active. -/
theorem no_active_of_no_work {ws : StringSet}
    (hpresent : ∀ id m, p.course.task id = some m → m.phase.isActive = true → id ∈ ws) (hs : Sound p)
    (h : p.taskList.flatMap (recoveryWork ws) = []) : p.course.No (·.isActive) := by
  refine no_iff.2 fun id t ht => ?_
  by_contra hact
  have hact : t.phase.isActive = true := by simpa using hact
  have hid := hpresent id _ (task_eq ht) hact
  have hw := List.flatMap_eq_nil_iff.1 h t (mem_vals.2 ⟨id, ht⟩)
  rw [← (hs.tasks id t ht).key] at hid
  unfold recoveryWork at hw
  rw [if_pos] at hw
  · exact absurd hw (by simp)
  · cases hph : t.phase <;> simp_all [TaskPhase.isActive, ExtTreeSet.contains_iff_mem]

theorem recover_refines {ws : StringSet} (hs : Sound p) (h : p.recover ws = .ok (q, effects)) :
    p.Refines (.recover ws) q := by
  simp only [recover, bind_eq_ok, exists_const, require_eq_ok] at h
  obtain ⟨hp, h⟩ := h
  split at h
  · rename_i htarget
    obtain ⟨rfl, -⟩ := Prod.mk.inj (Except.ok.inj h)
    exact ⟨⟨hs, rfl⟩, .recoverHold hp (.inl ⟨rfl, htarget⟩)⟩
  rename_i htarget
  simp only [bind_eq_ok, Prod.exists] at h
  obtain ⟨tasks, work, hold, hscan, h⟩ := h
  obtain ⟨rfl, hnone, hsome⟩ := recoverTasks_sound hs hscan
  cases hold with
  | some reason =>
    obtain ⟨rfl, -⟩ := Prod.mk.inj (Except.ok.inj h)
    exact ⟨⟨hs, rfl⟩, .recoverHold hp (.inr ⟨rfl, hsome (by simp)⟩)⟩
  | none =>
  obtain ⟨hpresent, rfl⟩ := hnone rfl
  have hrestore : p.state.integration.importedWorkspaceRestorePending = false := hs.integration.restore
  have hscanned : p.withTasks p.state.tasks = p := rfl
  simp only [hscanned, hrestore, Bool.and_false, Bool.false_eq_true, if_false] at h
  cases hb : p.state.batch with
  | none =>
    -- nothing to resume
    have hphase : p.recoveredPhase p.recoveryTarget = .idle := by simp [recoveredPhase, hb]
    have hshift : Shift p.config p.course (.recover ws) { p.course with phase := .idle, target := none } :=
      .recoverIdle hp htarget (by simp [course, hb])
    rw [hphase] at h
    simp only [withPhase, reduceCtorEq, if_false] at h
    split at h <;> obtain ⟨rfl, -⟩ := Prod.mk.inj (Except.ok.inj h) <;> exact ⟨⟨hs, rfl⟩, hshift⟩
  | some b =>
    have hbatch : p.course.batch.isSome = true := by simp [course, hb]
    have hto : ∀ ph, p.recoveryTarget = some ph → ph = .paused ∨ ph = .cleaning ∨ ph = .publishing →
        Shift p.config p.course (.recover ws) { p.course with phase := ph, target := none } :=
      fun ph hph hkind => .recoverTo hp hbatch hph hkind hpresent
    by_cases hpaused : p.recoveryTarget = some .paused
    · have hphase : p.recoveredPhase p.recoveryTarget = .paused := by simp [recoveredPhase, hb, hpaused]
      rw [hphase] at h
      simp only [withPhase, reduceCtorEq, if_false] at h
      split at h <;> obtain ⟨rfl, -⟩ := Prod.mk.inj (Except.ok.inj h) <;>
        exact ⟨⟨hs, rfl⟩, hto _ hpaused (.inl rfl)⟩
    by_cases hcleaning : p.recoveryTarget = some .cleaning
    · have hphase : p.recoveredPhase p.recoveryTarget = .cleaning := by
        simp [recoveredPhase, hb, hcleaning]
      rw [hphase] at h
      simp only [withPhase, if_true] at h
      obtain ⟨rfl, -⟩ := Prod.mk.inj (Except.ok.inj h)
      exact ⟨⟨hs, rfl⟩, hto _ hcleaning (.inr (.inl rfl))⟩
    by_cases hpublishing : p.recoveryTarget = some .publishing
    · have hphase : p.recoveredPhase p.recoveryTarget = .publishing := by
        simp [recoveredPhase, hb, hpublishing, hrestore]
      rw [hphase] at h
      have hresume : ∀ (r : Processor) (e : Effect),
          ({ p.withPhase .publishing with recoveryTarget := none } : Processor).publishingResumeEffect =
            .ok (r, e) → p.Refines (.recover ws) r := by
        intro r e hr
        obtain ⟨hk, hc⟩ := publishingResumeEffect_spec
          (p := { p.withPhase .publishing with recoveryTarget := none }) hs hr
        refine ⟨⟨hk.sound, hk.config⟩, ?_⟩
        rcases hc with hc | hc
        · rw [hc]; exact hto _ hpublishing (.inr (.inr rfl))
        · rw [hc]; exact .recoverStop hp hbatch hpublishing
      simp only [withPhase, reduceCtorEq, if_false, if_true, resumePhase] at h
      split at h <;> simp only [bind_eq_ok] at h <;> obtain ⟨⟨r, e⟩, hr, h⟩ := h <;>
        obtain ⟨rfl, -⟩ := Prod.mk.inj (Except.ok.inj h) <;> exact hresume _ _ hr
    have hrebuilt : rebuilt p.course.target = true := by
      have ht : p.course.target = p.recoveryTarget := rfl
      rw [ht]
      cases htg : p.recoveryTarget with
      | none => rfl
      | some ph => cases ph <;> simp_all [rebuilt]
    by_cases hjoin : p.state.integration.workspacePrepared = true ∨ p.tasksReadyToMerge ≠ []
    · have hphase : p.recoveredPhase p.recoveryTarget = .joining := by
        simp only [recoveredPhase, hb, hpaused, hcleaning, hpublishing, reduceCtorEq, if_false]
        rw [if_pos hjoin]
      have hready : p.course.prepared = true ∨ ∃ id, p.course.In id .ready :=
        hjoin.imp id exists_ready
      rw [hphase] at h
      simp only [withPhase, reduceCtorEq, if_false, resumePhase] at h
      split at h
      · rename_i hwork
        obtain ⟨hk, hn⟩ := nextMergeOrReview_next
          (p := { p.withPhase .joining with recoveryTarget := none }) hs h
        exact ⟨⟨hk.sound, hk.config⟩,
          .recoverNext hp hbatch hrebuilt (no_active_of_no_work hpresent hs hwork) hready hn⟩
      · obtain ⟨rfl, -⟩ := Prod.mk.inj (Except.ok.inj h)
        exact ⟨⟨hs, rfl⟩, .recoverJoin hp hbatch hrebuilt hpresent hready⟩
    · have hphase : p.recoveredPhase p.recoveryTarget = .rolling := by
        simp only [recoveredPhase, hb, hpaused, hcleaning, hpublishing, reduceCtorEq, if_false]
        rw [if_neg hjoin]
      obtain ⟨hprepared, hready⟩ := not_or.1 hjoin
      have hshift : Shift p.config p.course (.recover ws)
          { p.course with phase := .rolling, target := none } :=
        .recoverRoll hp hbatch hrebuilt hpresent (by simpa [course] using hprepared)
          (readyToMerge_eq_nil.1 (not_ne_iff.1 hready))
      rw [hphase] at h
      simp only [withPhase, reduceCtorEq, if_false, resumePhase] at h
      split at h <;> obtain ⟨rfl, -⟩ := Prod.mk.inj (Except.ok.inj h) <;> exact ⟨⟨hs, rfl⟩, hshift⟩

end Recovery

theorem dispatch_refines {cmd : ProcessorCommand} (hs : Sound p)
    (h : p.dispatch cmd = .ok (q, effects)) : p.Refines cmd q := by
  cases cmd with
  | openCohort id base now => exact openCohort_refines hs h
  | recover ws => exact recover_refines hs h
  | admitWave candidates now => exact admitWave_refines hs h
  | inboxReconciled n required => exact inboxReconciled_refines hs h
  | inboxFinalizationReconciled required => exact inboxFinalizationReconciled_refines hs h
  | dependencyGraphRefreshed boundary outcome => exact dependencyGraphRefreshed_refines hs h
  | inboxCurated n mode outcome => exact inboxCurated_refines hs h
  | inboxDrained n => exact inboxDrained_refines hs h
  | tokenBudgetChecked call observation => exact tokenBudgetChecked_refines hs h
  | cohortBudgetChecked call now => exact cohortBudgetChecked_refines hs h
  | workspaceReady id => exact workspaceReady_refines hs h
  | workspaceFailed id reason => exact workspaceFailed_refines hs h
  | taskLeafPrepared id outcome => exact taskLeafPrepared_refines hs h
  | taskLeaf id outcome => exact taskLeaf_refines hs h
  | taskCommitted id commit => exact taskCommitted_refines hs h
  | taskReviewPrepared id outcome => exact taskReviewPrepared_refines hs h
  | taskReview id outcome => exact taskReview_refines hs h
  | advance now => exact advance_refines hs h
  | integrationWorkspaceReady => exact integrationWorkspaceReady_refines hs h
  | taskMerged id outcome => exact taskMerged_refines hs h
  | mergeResolution id outcome => exact mergeResolution_refines hs h
  | mergeResolutionFinalized id outcome => exact mergeResolutionFinalized_refines hs h
  | mergeResolutionAborted id reason => exact mergeResolutionAborted_refines hs h
  | integrationVerified head outcome => exact integrationVerified_refines hs h
  | integrationReview outcome => exact integrationReview_refines hs h
  | integrationFix outcome => exact integrationFix_refines hs h
  | integrationFixCommitted head => exact integrationFixCommitted_refines hs h
  | published head pushed => exact published_refines hs h
  | publicationRejected reason => exact publicationRejected_refines hs h
  | publicationAwaitingApproval reason => exact publicationAwaitingApproval_refines hs h
  | publicationReanchorRequired reason target => exact publicationReanchorRequired_refines hs h
  | publicationReanchored => exact publicationReanchored_refines hs h
  | ciVerified outcome => exact ciVerified_refines hs h
  | ciFix outcome => exact ciFix_refines hs h
  | ciFixPrepared outcome => exact ciFixPrepared_refines hs h
  | ciFixCommitted head => exact ciFixCommitted_refines hs h
  | knowledgeCurationPrepared outcome => exact knowledgeCurationPrepared_refines hs h
  | knowledgeCurated outcome => exact knowledgeCurated_refines hs h
  | archivalPrepared outcome => exact archivalPrepared_refines hs h
  | archiveCiReconfirmed head outcome => exact archiveCiReconfirmed_refines hs h
  | cleanupComplete => exact cleanupComplete_refines hs h
  | pause => exact pause_refines hs h
  | resume => exact resume_refines hs h
  | block reason =>
    obtain ⟨rfl, -⟩ := Prod.mk.inj (Except.ok.inj h)
    exact refines_hold hs rfl

/-- An accepted command either got a standing reply and changed nothing, or was dispatched. -/
theorem apply_cases {cmd : ProcessorCommand} (h : p.apply cmd = .ok (q, effects)) :
    (p.standingReply cmd).isSome = true ∧ q = p ∨
      p.standingReply cmd = none ∧ ∃ more, p.dispatch cmd = .ok (q, more) := by
  unfold apply at h
  split at h
  · rename_i reply hreply
    obtain ⟨rfl, -⟩ := Prod.mk.inj (Except.ok.inj h)
    exact .inl ⟨by simp [hreply], rfl⟩
  · rename_i hnone
    simp only [bind_eq_ok, Prod.exists] at h
    obtain ⟨r, more, hr, h⟩ := h
    obtain ⟨rfl, -⟩ := Prod.mk.inj (Except.ok.inj h)
    exact .inr ⟨hnone, more, hr⟩

theorem standingReply_isSome {cmd : ProcessorCommand} :
    (p.standingReply cmd).isSome = p.course.stands cmd := by
  have hphase : p.course.phase = p.state.phase := rfl
  unfold standingReply Course.stands
  rw [hphase]
  cases p.state.phase <;> cases cmd <;> rfl

theorem fromCheckpoint_eq {config : ProcessorConfig} {state : ProcessorState}
    (h : fromCheckpoint config state = .ok q) :
    q = { config := config, state := { state with phase := .recovery }
          recoveryTarget := some state.phase } := by
  simp only [fromCheckpoint, bind_eq_ok] at h
  obtain ⟨_, -, _, -, h⟩ := h
  exact (Except.ok.inj h).symm

/-- **Every step of the reducer is a move of its course.** -/
theorem next_moves {step : ProcessorStep} (hs : Sound p) (h : p.next step = some q) :
    p.Keeps q ∧ Moves p.config p.course step q.course := by
  cases step with
  | apply cmd =>
    simp only [next, Option.map_eq_some_iff, Prod.exists, exists_and_right, exists_eq_right] at h
    obtain ⟨effects, h⟩ := h
    have h : p.apply cmd = .ok (q, effects) := by
      cases ha : p.apply cmd <;> simp_all [Except.toOption]
    rcases apply_cases h with ⟨hstand, rfl⟩ | ⟨hstand, more, hd⟩
    · rw [standingReply_isSome] at hstand
      exact ⟨⟨hs, rfl⟩, .stand hstand⟩
    · have hstand : p.course.stands cmd = false := by
        rw [← standingReply_isSome, hstand]; rfl
      obtain ⟨hk, hshift⟩ := dispatch_refines hs hd
      exact ⟨hk, .shift hstand hshift⟩
  | acknowledge effect =>
    have h : p.acknowledgeNonCommandEffect effect = .ok q := by
      cases ha : p.acknowledgeNonCommandEffect effect <;> simp_all [next, Except.toOption]
    rcases acknowledge_spec hs h with rfl | ⟨rfl, hp, rfl⟩
    · exact ⟨⟨hs, rfl⟩, .noted⟩
    · exact ⟨⟨sound_withIntegration hs hs.integration, rfl⟩, .journal hp⟩
  | restart =>
    have h : fromCheckpoint p.config p.state = .ok q := by
      cases ha : fromCheckpoint p.config p.state <;> simp_all [next, Except.toOption]
    obtain rfl := fromCheckpoint_eq h
    exact ⟨⟨hs, rfl⟩, .restart⟩

/-- The course before anything happened. -/
theorem new_spec {config : ProcessorConfig} (h : Processor.new config = .ok p) :
    config.validate = .ok () ∧ Sound p ∧ p.config = config ∧ p.course = Course.initial := by
  simp only [Processor.new, bind_eq_ok] at h
  obtain ⟨_, hv, h⟩ := h
  obtain rfl := Except.ok.inj h
  refine ⟨hv, ⟨rfl, by simp, by simp, ⟨rfl, ?_, ?_, ?_⟩⟩, rfl, ?_⟩
  · simp [IntegrationRuntime.parts]
  · simp [IntegrationRuntime.parts]
  · simp [IntegrationRuntime.parts]
  · simp [course, Course.initial]

end Processor

open Steps in
/-- **What every move of the course keeps holds in every state a guarded run reaches.** -/
theorem Processor.reach_course {p q : Processor} {ok : Processor → ProcessorStep → Prop}
    {I : Course → Prop} (h : Reach Processor.next ok p q) (hs : Sound p) (h0 : I p.course)
    (hstep : ∀ r step d, I r.course → Sound r → ok r step → Moves r.config r.course step d → I d) :
    Sound q ∧ q.config = p.config ∧ I q.course := by
  refine h.invariant (I := fun q => Sound q ∧ q.config = p.config ∧ I q.course) ⟨hs, rfl, h0⟩ ?_
  rintro r step s ⟨hr, hc, hI⟩ hok hn
  obtain ⟨hk, hm⟩ := next_moves hr hn
  exact ⟨hk.sound, hk.config.trans hc, hstep r step _ hI hr hok hm⟩

end Orchestrail
