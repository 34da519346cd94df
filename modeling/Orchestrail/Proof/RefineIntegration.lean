import Orchestrail.Proof.RefineCohort

/-!
# Integration turns refine the course

Merges and their resolution, the integration review, verification, publication and its re-anchor,
CI and its repair.
-/

namespace Orchestrail

open Std Table

namespace Processor

variable {p q : Processor} {effects : List Effect}

/-- The coordinates of the integration that validity speaks of, one by one. -/
theorem coordinates (hs : Sound p) :
    p.state.integration.importedWorkspaceRestorePending = false ∧
      (∀ r ∈ p.state.integration.integrationHead, isRef r = true) ∧
      (∀ r ∈ p.state.integration.reviewSha, isRef r = true) ∧
      (∀ r ∈ p.state.integration.verificationHead, isRef r = true) ∧
      (∀ r ∈ p.state.integration.publishedHead, isRef r = true) ∧
      ∀ m ∈ p.state.integration.pendingMergeResolution, isRef m.preMergeHead = true := by
  have hheads := hs.integration.heads
  simp only [IntegrationRuntime.parts, List.forall_mem_cons, List.not_mem_nil, false_implies,
    implies_true, and_true] at hheads
  refine ⟨hs.integration.restore, hheads.1, hheads.2.1, hheads.2.2.1, hheads.2.2.2, fun m hm => ?_⟩
  exact hs.integration.pre _ (Option.mem_map_of_mem _ hm)

theorem partsOk_of {i j : IntegrationRuntime} (hi : PartsOk i.parts)
    (hrestore : j.importedWorkspaceRestorePending = false)
    (hhead : ∀ r ∈ j.integrationHead, isRef r = true) (hreview : ∀ r ∈ j.reviewSha, isRef r = true)
    (hverified : ∀ r ∈ j.verificationHead, isRef r = true)
    (hpublished : ∀ r ∈ j.publishedHead, isRef r = true)
    (hpre : ∀ m ∈ j.pendingMergeResolution, isRef m.preMergeHead = true)
    (hcurations : j.pendingKnowledgeCurations = i.pendingKnowledgeCurations) : PartsOk j.parts := by
  refine ⟨hrestore, ?_, ?_, ?_⟩
  · intro h hh
    simp only [IntegrationRuntime.parts, List.mem_cons, List.not_mem_nil, or_false] at hh
    rcases hh with rfl | rfl | rfl | rfl
    exacts [hhead, hreview, hverified, hpublished]
  · simpa [IntegrationRuntime.parts] using hpre
  · simpa [IntegrationRuntime.parts, hcurations] using hi.curations

theorem integrationWorkspaceReady_refines (hs : Sound p)
    (h : p.integrationWorkspaceReady = .ok (q, effects)) : p.Refines .integrationWorkspaceReady q := by
  simp only [integrationWorkspaceReady, bind_eq_ok, exists_const, requirePhase_eq_ok] at h
  obtain ⟨hp, h⟩ := h
  obtain ⟨hrest, hh, hr, hv, hpub, hpre⟩ := coordinates hs
  have hs' : Sound (p.withIntegration { p.state.integration with
      workspacePrepared := true, importedWorkspaceRestorePending := false }) :=
    sound_withIntegration hs (partsOk_of hs.integration rfl hh hr hv hpub hpre rfl)
  obtain ⟨hk, hn⟩ := nextMergeOrReview_next hs' h
  exact ⟨⟨hk.sound, hk.config⟩, .workspaceReady hp hn⟩

/-- Recording a merge: the task, the new tip, then the next step of phase 4. -/
theorem recordMergedTask_next {id sha : String} (hs : Sound p)
    (h : p.recordMergedTask id sha = .ok (q, effects)) :
    p.Keeps q ∧ Next { p.course.setTask id ⟨.merged, some sha⟩ with
      head := some sha, verified := none, merged := p.course.merged.insert id } q.course := by
  simp only [recordMergedTask, bind_eq_ok, exists_const, validateRef, require_eq_ok,
    taskMut_eq_ok] at h
  obtain ⟨href, t, ht, h⟩ := h
  have hok := hs.tasks id t ht
  obtain ⟨hrest, -, hr, -, hpub, hpre⟩ := coordinates hs
  have hs' : Sound (p.withTask id { t with phase := .merged, reviewSha := some sha }) :=
    sound_withTask hs ⟨hok.key, hok.valid, hok.wave, hok.domain, hok.previous, by simpa using href,
      hok.native⟩
  have hs'' : Sound ((p.withTask id { t with phase := .merged, reviewSha := some sha }).withIntegration
      { p.state.integration with
        integrationHead := some sha, verificationHead := none
        mergedTasks := p.state.integration.mergedTasks.insert id }) :=
    sound_withIntegration hs' (partsOk_of hs.integration hrest (by simpa using href) hr
      (by simp) hpub hpre rfl)
  obtain ⟨hk, hn⟩ := nextMergeOrReview_next hs'' h
  refine ⟨⟨hk.sound, hk.config⟩, ?_⟩
  have hc := course_withTask (t := { t with phase := .merged, reviewSha := some sha }) ht
  rw [show (Processor.withIntegration _ _).course = { (p.withTask id
    { t with phase := .merged, reviewSha := some sha }).course with
      head := some sha, verified := none, merged := p.course.merged.insert id } from rfl, hc] at hn
  exact hn

theorem quarantineMergedTask_next {id reason : String} (hs : Sound p)
    (h : p.quarantineMergedTask id reason = .ok (q, effects)) :
    p.Keeps q ∧ ∃ t, p.state.tasks[id]? = some t ∧
      Next (p.course.setTask id ⟨.conflict, t.reviewSha⟩) q.course := by
  simp only [quarantineMergedTask, bind_eq_ok, taskMut_eq_ok] at h
  obtain ⟨t, ht, ⟨r, more⟩, hr, h⟩ := h
  obtain ⟨rfl, -⟩ := Prod.mk.inj (Except.ok.inj h)
  have hok := hs.tasks id t ht
  have hs' : Sound (p.withTask id { t with phase := .conflict, reason := some reason }) :=
    sound_withTask hs
      ⟨hok.key, hok.valid, hok.wave, hok.domain, hok.previous, hok.review, hok.native⟩
  obtain ⟨hk, hn⟩ := nextMergeOrReview_next hs' hr
  rw [course_withTask ht] at hn
  exact ⟨⟨hk.sound, hk.config⟩, t, ht, hn⟩

theorem failIntegration_eq {reason : String} (h : p.failIntegration reason = .ok (q, effects)) :
    q = (p.withIntegration { p.state.integration with failedReason := some reason }).blocked
      s!"integration failed: {reason}" := by
  obtain ⟨rfl, -⟩ := Prod.mk.inj (Except.ok.inj h)
  rfl

theorem failIntegration_refines {cmd : ProcessorCommand} {reason : String} (hs : Sound p)
    (hcmd : mayHold p.state.phase cmd = true) (h : p.failIntegration reason = .ok (q, effects)) :
    p.Refines cmd q := by
  obtain rfl := failIntegration_eq h
  exact ⟨⟨hs, rfl⟩, .hold hcmd⟩

theorem taskMerged_refines {id : String} {outcome : MergeOutcome} (hs : Sound p)
    (h : p.taskMerged id outcome = .ok (q, effects)) : p.Refines (.taskMerged id outcome) q := by
  simp only [taskMerged, bind_eq_ok, exists_const, requirePhase_eq_ok, taskMut_eq_ok,
    expectTaskPhase_eq_ok] at h
  obtain ⟨hp, t, ht, hph, h⟩ := h
  have hmark : p.course.task id = some ⟨.ready, t.reviewSha⟩ := by rw [task_eq ht, hph]
  cases outcome with
  | merged sha =>
    obtain ⟨hk, hn⟩ := recordMergedTask_next hs h
    exact ⟨hk, .merged hp hmark hn⟩
  | quarantined reason =>
    obtain ⟨hk, t', ht', hn⟩ := quarantineMergedTask_next hs h
    rw [ht] at ht'
    obtain rfl := Option.some.inj ht'
    exact ⟨hk, .quarantined hp hmark hn⟩
  | failed reason => exact failIntegration_refines hs (by rw [hp]; rfl) h
  | needsResolution pre all paths fingerprints =>
    simp only [bind_eq_ok, exists_const, validateRef, require_eq_ok, orError_eq_ok,
      dispatchIntegration] at h
    obtain ⟨href, _, -, _, -, -, _, -, expected, -, -, hnone, h⟩ := h
    obtain ⟨rfl, -⟩ := Prod.mk.inj (Except.ok.inj h)
    have hok := hs.tasks id t ht
    have hs' : Sound (p.withTask id { t with phase := .resolvingMerge }) := sound_withTask hs
      ⟨hok.key, hok.valid, hok.wave, hok.domain, hok.previous, hok.review, hok.native⟩
    obtain ⟨hrest, hh, hr, hv, hpub, hpre⟩ := coordinates hs
    refine ⟨⟨sound_withIntegration hs' (partsOk_of hs.integration hrest hh hr hv hpub
      (by simpa [IntegrationRuntime.leafAttempt, withIntegration] using href) rfl), rfl⟩, ?_⟩
    have hc := course_withTask (t := { t with phase := .resolvingMerge }) ht
    rw [show (Processor.withIntegration _ _).course = { (p.withTask id
      { t with phase := .resolvingMerge }).course with resolving := some id } from rfl, hc]
    exact .needsResolution hp hmark (by simp [course, hnone])

theorem mergeResolution_refines {id : String} {outcome : LeafOutcome} (hs : Sound p)
    (h : p.mergeResolution id outcome = .ok (q, effects)) :
    p.Refines (.mergeResolution id outcome) q := by
  simp only [mergeResolution, bind_eq_ok, exists_const, requirePhase_eq_ok] at h
  obtain ⟨-, _, -, t, -, _, -, h⟩ := h
  cases outcome <;> obtain ⟨rfl, -⟩ := Prod.mk.inj (Except.ok.inj h) <;> exact refines_stay hs rfl

theorem requirePendingMergeResolution_eq_ok {id : String} {u : Unit} :
    p.requirePendingMergeResolution id = .ok u ↔ p.course.resolving = some id := by
  simp [requirePendingMergeResolution, course]

/-- Dropping the pending resolution keeps the data valid. -/
theorem sound_settled (hs : Sound p) :
    Sound (p.withIntegration { p.state.integration with pendingMergeResolution := none }) := by
  obtain ⟨hrest, hh, hr, hv, hpub, hpre⟩ := coordinates hs
  exact sound_withIntegration hs
    (partsOk_of hs.integration hrest hh hr hv hpub (by simp) rfl)

theorem mergeResolutionFinalized_refines {id : String} {outcome : MergeOutcome} (hs : Sound p)
    (h : p.mergeResolutionFinalized id outcome = .ok (q, effects)) :
    p.Refines (.mergeResolutionFinalized id outcome) q := by
  simp only [mergeResolutionFinalized, bind_eq_ok, exists_const, requirePhase_eq_ok, taskMut_eq_ok,
    expectTaskPhase_eq_ok, requirePendingMergeResolution_eq_ok] at h
  obtain ⟨hp, hres, t, ht, hph, h⟩ := h
  have hmark : p.course.task id = some ⟨.resolvingMerge, t.reviewSha⟩ := by rw [task_eq ht, hph]
  cases outcome with
  | merged sha =>
    obtain ⟨hk, hn⟩ := recordMergedTask_next (sound_settled hs) h
    exact ⟨⟨hk.sound, hk.config⟩, .resolved hp hmark hres hn⟩
  | quarantined reason =>
    obtain ⟨hk, t', ht', hn⟩ := quarantineMergedTask_next (sound_settled hs) h
    obtain rfl := Option.some.inj (ht.symm.trans ht')
    exact ⟨⟨hk.sound, hk.config⟩, .unresolved hp hmark hres ⟨reason, .inl rfl⟩ hn⟩
  | failed reason => exact failIntegration_refines hs (by rw [hp]; rfl) h
  | needsResolution pre all paths fingerprints => exact absurd h (by simp)

theorem mergeResolutionAborted_refines {id reason : String} (hs : Sound p)
    (h : p.mergeResolutionAborted id reason = .ok (q, effects)) :
    p.Refines (.mergeResolutionAborted id reason) q := by
  simp only [mergeResolutionAborted, bind_eq_ok, exists_const, requirePhase_eq_ok, taskMut_eq_ok,
    expectTaskPhase_eq_ok, requirePendingMergeResolution_eq_ok] at h
  obtain ⟨hp, hres, t, ht, hph, h⟩ := h
  have hmark : p.course.task id = some ⟨.resolvingMerge, t.reviewSha⟩ := by rw [task_eq ht, hph]
  obtain ⟨hk, t', ht', hn⟩ := quarantineMergedTask_next (sound_settled hs) h
  obtain rfl := Option.some.inj (ht.symm.trans ht')
  exact ⟨⟨hk.sound, hk.config⟩, .unresolved hp hmark hres ⟨reason, .inr rfl⟩ hn⟩

theorem integrationVerified_refines {head : String} {outcome : VerificationOutcome} (hs : Sound p)
    (h : p.integrationVerified head outcome = .ok (q, effects)) :
    p.Refines (.integrationVerified head outcome) q := by
  simp only [integrationVerified, bind_eq_ok, exists_const, requirePhase_eq_ok, validateRef,
    require_eq_ok] at h
  obtain ⟨hp, href, hhead, _, -, h⟩ := h
  obtain ⟨hrest, hh, hr, hv, hpub, hpre⟩ := coordinates hs
  have hsound : Sound (p.withIntegration { p.state.integration with
      verificationAttempts := satAdd p.state.integration.verificationAttempts 1
      verificationHead := some head }) :=
    sound_withIntegration hs (partsOk_of hs.integration hrest hh hr (by simpa using href)
      hpub hpre rfl)
  cases outcome with
  | passed =>
    simp only [bind_eq_ok] at h
    obtain ⟨_, -, h⟩ := h
    obtain ⟨rfl, -⟩ := Prod.mk.inj (Except.ok.inj h)
    exact ⟨⟨hsound, rfl⟩, .verified hp hhead (.inl rfl)⟩
  | exempt reason =>
    simp only [bind_eq_ok] at h
    obtain ⟨_, -, h⟩ := h
    obtain ⟨rfl, -⟩ := Prod.mk.inj (Except.ok.inj h)
    exact ⟨⟨hsound, rfl⟩, .verified hp hhead (.inr ⟨reason, rfl⟩)⟩
  | failed signature reason =>
    obtain rfl := failIntegration_eq h
    exact ⟨⟨hs, rfl⟩, .hold (by rw [show p.course.phase = _ from hp]; rfl)⟩
  | blocked reason =>
    obtain ⟨rfl, -⟩ := Prod.mk.inj (Except.ok.inj h)
    exact ⟨⟨hs, rfl⟩, .hold (by rw [show p.course.phase = _ from hp]; rfl)⟩

theorem integrationReview_refines {outcome : ReviewOutcome} (hs : Sound p)
    (h : p.integrationReview outcome = .ok (q, effects)) : p.Refines (.integrationReview outcome) q := by
  simp only [integrationReview, bind_eq_ok, exists_const, requirePhase_eq_ok] at h
  obtain ⟨hp, h⟩ := h
  obtain ⟨hrest, hh, hr, hv, hpub, hpre⟩ := coordinates hs
  cases outcome with
  | clean sha =>
    simp only [bind_eq_ok, exists_const, validateRef, require_eq_ok] at h
    obtain ⟨href, hhead, h⟩ := h
    split at h
    · obtain rfl := failIntegration_eq h
      exact ⟨⟨hs, rfl⟩, .hold (by rw [show p.course.phase = _ from hp]; rfl)⟩
    · obtain ⟨rfl, -⟩ := Prod.mk.inj (Except.ok.inj h)
      exact ⟨⟨sound_withIntegration hs (partsOk_of hs.integration hrest hh
        (by simpa using href) (by simp) hpub hpre rfl), rfl⟩, .reviewed hp hhead⟩
  | findings signature n ids =>
    simp only [bind_eq_ok] at h
    obtain ⟨_, -, h⟩ := h
    have hsound : Sound (p.withIntegration { p.state.integration with verificationHead := none }) :=
      sound_withIntegration hs (partsOk_of hs.integration hrest hh hr (by simp) hpub
        hpre rfl)
    split at h
    · obtain rfl := failIntegration_eq h
      exact ⟨⟨hsound, rfl⟩, .findings hp (.inr rfl)⟩
    split at h
    · obtain rfl := failIntegration_eq h
      exact ⟨⟨hsound, rfl⟩, .findings hp (.inr rfl)⟩
    · obtain ⟨rfl, -⟩ := Prod.mk.inj (Except.ok.inj h)
      refine ⟨⟨hsound, rfl⟩, ?_⟩
      have hshift : Shift p.config p.course (.integrationReview (.findings signature n ids))
          { p.course with verified := none, phase := .publishing } := .findings hp (.inl rfl)
      rw [← hp] at hshift
      exact hshift
  | incomplete =>
    simp only at h
    split at h
    · obtain rfl := failIntegration_eq h
      exact ⟨⟨hs, rfl⟩, .hold (by rw [show p.course.phase = _ from hp]; rfl)⟩
    · obtain ⟨rfl, -⟩ := Prod.mk.inj (Except.ok.inj h)
      exact ⟨⟨hs, rfl⟩, .stay rfl⟩
  | escalated reason => exact failIntegration_refines hs (by rw [hp]; rfl) h
  | cleanRiskElevated sha risk => exact failIntegration_refines hs (by rw [hp]; rfl) h
  | findingsRiskElevated signature risk n ids => exact failIntegration_refines hs (by rw [hp]; rfl) h

theorem integrationFix_refines {outcome : LeafOutcome} (hs : Sound p)
    (h : p.integrationFix outcome = .ok (q, effects)) : p.Refines (.integrationFix outcome) q := by
  simp only [integrationFix, bind_eq_ok, exists_const, requirePhase_eq_ok] at h
  obtain ⟨hp, h⟩ := h
  cases outcome with
  | completed author | completedWithWontFix author n =>
    obtain ⟨rfl, -⟩ := Prod.mk.inj (Except.ok.inj h)
    exact refines_stay hs rfl
  | retryableFailure reason | escalated reason | riskElevated author risk n =>
    exact failIntegration_refines hs (by rw [hp]; rfl) h

theorem integrationFixCommitted_refines {head : String} (hs : Sound p)
    (h : p.integrationFixCommitted head = .ok (q, effects)) :
    p.Refines (.integrationFixCommitted head) q := by
  simp only [integrationFixCommitted, bind_eq_ok, exists_const, requirePhase_eq_ok, validateRef,
    require_eq_ok] at h
  obtain ⟨hp, href, h⟩ := h
  obtain ⟨hrest, hh, hr, hv, hpub, hpre⟩ := coordinates hs
  have hsound : Sound (p.withIntegration
      { p.state.integration with integrationHead := some head, verificationHead := none }) :=
    sound_withIntegration hs (partsOk_of hs.integration hrest (by simpa using href) hr
      (by simp) hpub hpre rfl)
  split at h
  · obtain rfl := failIntegration_eq h
    exact ⟨⟨hsound, rfl⟩, .fixCommitted hp (.inr rfl)⟩
  · obtain ⟨rfl, -⟩ := Prod.mk.inj (Except.ok.inj h)
    refine ⟨⟨hsound, rfl⟩, ?_⟩
    have hshift : Shift p.config p.course (.integrationFixCommitted head)
        { p.course with head := some head, verified := none, phase := .publishing } :=
      .fixCommitted hp (.inl rfl)
    rw [← hp] at hshift
    exact hshift

section Publication

/-- Moving the merged tasks: each was `Merged`, and in the course the whole set moves. -/
theorem moveMerged_spec {operation : String} (ph : TaskPhase) {move : TaskRuntime → TaskRuntime}
    {tasks : StringMap TaskRuntime} (hs : Sound p) (h : p.moveMerged operation move = .ok tasks)
    (hmark : ∀ t, (move t).mark = ⟨ph, t.reviewSha⟩)
    (hok : ∀ id t, TaskOk id t → TaskOk id (move t)) :
    p.course.MergedIn .merged ∧ Sound (p.withTasks tasks) ∧
      (p.withTasks tasks).course = p.course.moveAll p.course.merged ph := by
  obtain ⟨hin, hout⟩ := updateEach_getElem? (nodup_elems _) h
  have hmem : ∀ k, k ∈ elems p.state.integration.mergedTasks ↔ k ∈ p.course.merged := fun k => mem_elems
  have hmoved : ∀ k ∈ p.course.merged, ∃ t : TaskRuntime, p.state.tasks[k]? = some t ∧
      t.phase = .merged ∧ tasks[k]? = some (move t) := by
    intro k hk
    obtain ⟨t, t', ht, hf, ht'⟩ := hin k ((hmem k).2 hk)
    simp only [bind_eq_ok, exists_const, expectTaskPhase_eq_ok, Except.ok.injEq] at hf
    exact ⟨t, ht, hf.1, hf.2 ▸ ht'⟩
  refine ⟨fun id hid => ?_, sound_withTasks hs fun id t ht => ?_, ?_⟩
  · obtain ⟨t, ht, hph, -⟩ := hmoved id hid
    exact in_iff.2 ⟨t, ht, hph⟩
  · by_cases hk : id ∈ p.course.merged
    · obtain ⟨u, hu, -, hu'⟩ := hmoved id hk
      rw [hu'] at ht
      obtain rfl := Option.some.inj ht
      exact hok id u (hs.tasks id u hu)
    · rw [hout id fun hm => hk ((hmem id).1 hm)] at ht; exact hs.tasks id t ht
  · have htask : (fun k => tasks[k]?.map (·.mark)) = (p.course.moveAll p.course.merged ph).task := by
      funext k
      simp only [Course.moveAll]
      split
      · rename_i hk
        obtain ⟨t, ht, -, ht'⟩ := hmoved k hk
        simp only [course, ht, ht', Option.map_some, hmark]
        rfl
      · rename_i hk
        rw [hout k fun hm => hk ((hmem k).1 hm)]
        rfl
    simp only [course, withTasks, htask, updateEach_size h]
    rfl

theorem published_refines {head : String} {pushed : Bool} (hs : Sound p)
    (h : p.published head pushed = .ok (q, effects)) : p.Refines (.published head pushed) q := by
  simp only [published, bind_eq_ok, exists_const, requirePhase_eq_ok, validateRef,
    require_eq_ok] at h
  obtain ⟨hp, href, hne, ⟨hhead, hver⟩, tasks, htasks, h⟩ := h
  obtain ⟨rfl, -⟩ := Prod.mk.inj (Except.ok.inj h)
  obtain ⟨hrest, hh, hr, hv, hpub, hpre⟩ := coordinates hs
  obtain ⟨hin, hsound, hcourse⟩ := moveMerged_spec .published hs htasks (fun _ => rfl)
    fun _ _ hok => ⟨hok.key, hok.valid, hok.wave, hok.domain, hok.previous, hok.review, hok.native⟩
  refine ⟨⟨sound_withIntegration hsound (partsOk_of hs.integration hrest hh hr hv
    (by simpa using href) hpre rfl), rfl⟩, ?_⟩
  rw [show (Processor.withIntegration _ _).course = { (p.withTasks tasks).course with
    reanchor := false, publishedHead := some head, pushed := some pushed, ci := none
    gate := none } from rfl, hcourse]
  exact .published hp hne hhead hver hin

/-- The cleanup starts with the journal exactly when it was not journaled. -/
theorem cleanupEffects_journal {more : List Effect}
    (h : p.cleanupEffects = .writeJournalAndStatus :: more) :
    p.state.integration.cleanupJournaled = false := by
  unfold cleanupEffects at h
  by_contra hj
  have hj : p.state.integration.cleanupJournaled = true := by simpa using hj
  simp only [hj, if_true, List.nil_append] at h
  split at h
  · simp at h
  · cases ht : p.taskList.flatMap cleanupOf with
    | nil => simp [ht] at h
    | cons e es =>
      have he : e ∈ p.taskList.flatMap cleanupOf := by simp [ht]
      obtain ⟨t, -, he⟩ := List.mem_flatMap.1 he
      obtain rfl : e = .writeJournalAndStatus := by simpa [ht] using (List.cons.inj (ht ▸ h)).1
      unfold cleanupOf at he
      split at he <;> simp at he

theorem publicationRejected_refines {reason : String} (hs : Sound p)
    (h : p.publicationRejected reason = .ok (q, effects)) :
    p.Refines (.publicationRejected reason) q := by
  simp only [publicationRejected, bind_eq_ok, exists_const, requirePhase_eq_ok, require_eq_ok] at h
  obtain ⟨hp, -, hne, tasks, htasks, h⟩ := h
  obtain ⟨hrest, hh, hr, hv, hpub, hpre⟩ := coordinates hs
  obtain ⟨hin, hsound, hcourse⟩ := moveMerged_spec .escalated hs htasks (fun _ => rfl)
    fun _ _ hok => ⟨hok.key, hok.valid, hok.wave, hok.domain, hok.previous, hok.review, hok.native⟩
  split at h
  · rename_i more hjournal
    obtain ⟨rfl, -⟩ := Prod.mk.inj (Except.ok.inj h)
    refine ⟨⟨sound_withIntegration hsound (partsOk_of hs.integration hrest hh hr hv hpub hpre rfl),
      rfl⟩, ?_⟩
    rw [show (Processor.withPhase _ _).course = { (p.withTasks tasks).course with
      merged := ∅, phase := .cleaning } from rfl, hcourse]
    have hopen := cleanupEffects_journal hjournal
    exact .rejected hp hne hin hopen
  · exact absurd h (by simp)

theorem publicationAwaitingApproval_refines {reason : String} (hs : Sound p)
    (h : p.publicationAwaitingApproval reason = .ok (q, effects)) :
    p.Refines (.publicationAwaitingApproval reason) q := by
  simp only [publicationAwaitingApproval, bind_eq_ok, exists_const, requirePhase_eq_ok,
    require_eq_ok] at h
  obtain ⟨-, -, -, h⟩ := h
  obtain ⟨rfl, -⟩ := Prod.mk.inj (Except.ok.inj h)
  exact refines_stay hs rfl

theorem publicationReanchorRequired_refines {reason : String} {target : PublicationReanchorTarget}
    (hs : Sound p) (h : p.publicationReanchorRequired reason target = .ok (q, effects)) :
    p.Refines (.publicationReanchorRequired reason target) q := by
  simp only [publicationReanchorRequired, bind_eq_ok, exists_const, requirePhase_eq_ok,
    require_eq_ok] at h
  obtain ⟨hp, -, ⟨hne, hpub, hhead, hver⟩, h⟩ := h
  split at h
  · obtain ⟨rfl, -⟩ := Prod.mk.inj (Except.ok.inj h)
    exact ⟨⟨hs, rfl⟩, .hold (by rw [show p.course.phase = _ from hp]; rfl)⟩
  · simp only [bind_eq_ok] at h
    obtain ⟨_, -, h⟩ := h
    obtain ⟨rfl, -⟩ := Prod.mk.inj (Except.ok.inj h)
    exact ⟨⟨hs, rfl⟩, .reanchorRequired hp hne hpub (by simpa [course, Option.isSome_iff_ne_none] using hhead)
      hver⟩

theorem publicationReanchored_refines (hs : Sound p)
    (h : p.publicationReanchored = .ok (q, effects)) : p.Refines .publicationReanchored q := by
  simp only [publicationReanchored, bind_eq_ok, exists_const, requirePhase_eq_ok,
    require_eq_ok] at h
  obtain ⟨hp, hreanchor, hne, tasks, htasks, branch, -, h⟩ := h
  obtain ⟨rfl, -⟩ := Prod.mk.inj (Except.ok.inj h)
  obtain ⟨hin, hsound, hcourse⟩ := moveMerged_spec .ready hs htasks (fun _ => rfl)
    fun _ _ hok => ⟨hok.key, hok.valid, hok.wave, hok.domain, hok.previous, hok.review, hok.native⟩
  refine ⟨⟨sound_withIntegration hsound ⟨rfl, ?_, ?_, hs.integration.curations⟩, rfl⟩, ?_⟩
  · simp [IntegrationRuntime.parts, withIntegration]
  · simp [IntegrationRuntime.parts, withIntegration]
  rw [show (Processor.withPhase _ _).course = { (p.withTasks tasks).course with
    prepared := false, merged := ∅, ci := none, resolving := none, head := none
    reviewed := none, verified := none, publishedHead := none, pushed := none
    reanchor := false, phase := .joining } from rfl, hcourse]
  exact .reanchored hp (by simpa [course, Option.isSome_iff_ne_none] using hreanchor) hne hin

end Publication

section Ci

/-- A terminal hold keeps the published head with its CI unconfirmed. -/
theorem holdFailedPublishedCi_spec {reason : String} (hs : Sound p)
    (h : p.holdFailedPublishedCi reason = .ok (q, effects)) :
    p.Keeps q ∧ p.course.publishedHead.isSome = true ∧ p.course.pushed = some true ∧
      q.course = { p.course with ci := some .unconfirmedDegraded, phase := .blocked } := by
  simp only [holdFailedPublishedCi, validateCiObservationReason, bind_eq_ok, exists_const,
    require_eq_ok] at h
  obtain ⟨-, ⟨hhead, hpushed⟩, h⟩ := h
  obtain ⟨rfl, -⟩ := Prod.mk.inj (Except.ok.inj h)
  refine ⟨⟨sound_blocked (sound_noteOnce hs (by exact hs.integration)) _, rfl⟩,
    by simpa [course, Option.isSome_iff_ne_none] using hhead, hpushed, ?_⟩
  rw [course_blocked, course_noteOnce]
  rfl

/-- A failed check is repaired, or the head is given up. -/
theorem repairFailedCi_spec {head signature : String} (hs : Sound p)
    (h : p.repairFailedCi head signature = .ok (q, effects)) :
    p.Keeps q ∧ (q.course = { p.course with ci := none } ∨
      q.course = { p.course with ci := some .unconfirmedDegraded, phase := .blocked }) := by
  have hs' : Sound (p.withIntegration { p.state.integration with
      ciDisposition := none
      ciCycles := satAdd p.state.integration.ciCycles 1
      signatures := p.state.integration.signatures ++ [signature] }) :=
    sound_withIntegration hs hs.integration
  simp only [repairFailedCi] at h
  split at h
  · simp only [bind_eq_ok] at h
    obtain ⟨⟨r, more⟩, hr, h⟩ := h
    obtain ⟨rfl, -⟩ := Prod.mk.inj (Except.ok.inj h)
    obtain ⟨hk, -, -, hc⟩ := holdFailedPublishedCi_spec hs' hr
    exact ⟨⟨hk.sound, hk.config⟩, .inr hc⟩
  split at h
  · simp only [bind_eq_ok] at h
    obtain ⟨⟨r, more⟩, hr, h⟩ := h
    obtain ⟨rfl, -⟩ := Prod.mk.inj (Except.ok.inj h)
    obtain ⟨hk, -, -, hc⟩ := holdFailedPublishedCi_spec hs' hr
    exact ⟨⟨hk.sound, hk.config⟩, .inr hc⟩
  · obtain ⟨rfl, -⟩ := Prod.mk.inj (Except.ok.inj h)
    exact ⟨⟨hs', rfl⟩, .inl rfl⟩

/-- What a CI observation does, whether phase 5 made it or the archive preflight: a settled one
leaves for phase 6, one that settles nothing keeps the cohort where it was observed. -/
theorem ciVerified_spec {outcome : CiOutcome} (hs : Sound p)
    (h : p.ciVerified outcome = .ok (q, effects)) :
    p.Keeps q ∧ p.course.phase = .publishing ∧ ∃ head pushed,
      p.course.publishedHead = some head ∧ (∀ b, p.course.pushed = some b → pushed = b) ∧
      pushed = decide (outcome ≠ .localOnly) ∧
      ((∃ d, q.course = { p.course with pushed := some pushed, ci := some d, phase := .cleaning } ∧
          (outcome = .passed ∧ d = .confirmed ∨
            (outcome = .localOnly ∨ outcome = .disabled) ∧ d = .disabled ∨
            (∃ reason, outcome = .bestEffortDegraded reason) ∧ d = .unconfirmedDegraded)) ∨
        (∃ reason, outcome = .requiredUnconfirmed reason) ∧
          q.course = { p.course with pushed := some pushed, ci := some .unconfirmedDegraded } ∨
        (∃ signature reason, outcome = .failed signature reason) ∧
          (q.course = { p.course with pushed := some pushed, ci := none } ∨
            q.course = { p.course with
              pushed := some pushed, ci := some .unconfirmedDegraded, phase := .blocked })) := by
  simp only [ciVerified, bind_eq_ok, requirePhase_eq_ok, orError_eq_ok, validateRef,
    require_eq_ok] at h
  obtain ⟨_, hp, head, hhead, _, -, _, -, _, hpushed, h⟩ := h
  have hkeep : ∀ b, p.course.pushed = some b →
      p.state.integration.publicationPushed.getD (decide (outcome ≠ .localOnly)) = b := by
    intro b hb
    rw [show p.state.integration.publicationPushed = some b from hb]
    rfl
  have hs' : Sound (p.withIntegration { p.state.integration with
      publicationPushed :=
        some (p.state.integration.publicationPushed.getD (decide (outcome ≠ .localOnly)))
      ciWaitAttempts := satAdd p.state.integration.ciWaitAttempts 1 }) :=
    sound_withIntegration hs hs.integration
  generalize hv : p.state.integration.publicationPushed.getD (decide (outcome ≠ .localOnly)) = pushed
    at h hkeep hs' hpushed
  cases outcome with
  | passed =>
    obtain ⟨rfl, -⟩ := Prod.mk.inj (Except.ok.inj h)
    exact ⟨⟨sound_withIntegration hs hs.integration, rfl⟩, hp, head, pushed, hhead, hkeep, hpushed,
      .inl ⟨.confirmed, rfl, .inl ⟨rfl, rfl⟩⟩⟩
  | localOnly =>
    obtain ⟨rfl, -⟩ := Prod.mk.inj (Except.ok.inj h)
    exact ⟨⟨sound_withIntegration hs hs.integration, rfl⟩, hp, head, pushed, hhead, hkeep, hpushed,
      .inl ⟨.disabled, rfl, .inr (.inl ⟨.inl rfl, rfl⟩)⟩⟩
  | disabled =>
    obtain ⟨rfl, -⟩ := Prod.mk.inj (Except.ok.inj h)
    exact ⟨⟨sound_withIntegration hs hs.integration, rfl⟩, hp, head, pushed, hhead, hkeep, hpushed,
      .inl ⟨.disabled, rfl, .inr (.inl ⟨.inr rfl, rfl⟩)⟩⟩
  | bestEffortDegraded reason =>
    obtain ⟨rfl, -⟩ := Prod.mk.inj (Except.ok.inj h)
    refine ⟨⟨sound_withPhase (sound_noteOnce hs' (by exact hs.integration)) _, rfl⟩, hp, head, pushed, hhead,
      hkeep, hpushed, .inl ⟨.unconfirmedDegraded, ?_, .inr (.inr ⟨⟨reason, rfl⟩, rfl⟩)⟩⟩
    rw [course_withPhase, course_noteOnce]
    rfl
  | requiredUnconfirmed reason =>
    obtain ⟨rfl, -⟩ := Prod.mk.inj (Except.ok.inj h)
    refine ⟨⟨sound_noteOnce hs' (by exact hs.integration), rfl⟩, hp, head, pushed, hhead, hkeep, hpushed,
      .inr (.inl ⟨⟨reason, rfl⟩, ?_⟩)⟩
    rw [course_noteOnce]
    rfl
  | failed signature reason =>
    obtain ⟨hk, hc⟩ := repairFailedCi_spec hs' h
    exact ⟨⟨hk.sound, hk.config⟩, hp, head, pushed, hhead, hkeep, hpushed,
      .inr (.inr ⟨⟨signature, reason, rfl⟩, hc⟩)⟩

/-- An observation that settles nothing, made in phase 5 or by the archive preflight. -/
theorem ciVerified_observed {cmd : ProcessorCommand} {c : Course} {outcome : CiOutcome}
    (hs : Sound p) (hobs : Observed c cmd outcome p.course)
    (hopen : (∃ reason, outcome = .requiredUnconfirmed reason) ∨
      ∃ signature reason, outcome = .failed signature reason)
    (h : p.ciVerified outcome = .ok (q, effects)) : p.Keeps q ∧ Shift p.config c cmd q.course := by
  obtain ⟨hk, -, head, pushed, hhead, hpushed, hinferred, hcases⟩ := ciVerified_spec hs h
  obtain rfl : pushed = true := by rcases hopen with ⟨_, rfl⟩ | ⟨_, _, rfl⟩ <;> simpa using hinferred
  refine ⟨hk, ?_⟩
  have hp : ∀ b, p.course.pushed = some b → b = true := fun b hb => (hpushed b hb).symm
  rcases hcases with ⟨d, -, hd⟩ | ⟨⟨reason, rfl⟩, hc⟩ | ⟨⟨signature, reason, rfl⟩, hc | hc⟩
  · rcases hopen with ⟨_, rfl⟩ | ⟨_, _, rfl⟩ <;> simp at hd
  · rw [hc]; exact .ciOpen hobs hhead hp
  · rw [hc]; exact .ciFailed hobs hhead hp
  · rw [hc]; exact .ciGivenUp hobs hhead hp

theorem ciVerified_refines {outcome : CiOutcome} (hs : Sound p)
    (h : p.ciVerified outcome = .ok (q, effects)) : p.Refines (.ciVerified outcome) q := by
  obtain ⟨hk, hp, head, pushed, hhead, hpushed, -, ⟨d, hc, hd⟩ | ⟨hopen, -⟩ | ⟨hopen, -⟩⟩ :=
    ciVerified_spec hs h
  · refine ⟨hk, ?_⟩
    rw [hc]
    exact .ciSettled hp hhead hpushed hd
  · obtain ⟨hk, hshift⟩ := ciVerified_observed hs (.publish hp) (.inl hopen) h
    exact ⟨hk, hshift⟩
  · obtain ⟨hk, hshift⟩ := ciVerified_observed hs (.publish hp) (.inr hopen) h
    exact ⟨hk, hshift⟩

theorem ciFixPrepared_refines {outcome : CiFixPreparationOutcome} (hs : Sound p)
    (h : p.ciFixPrepared outcome = .ok (q, effects)) : p.Refines (.ciFixPrepared outcome) q := by
  simp only [ciFixPrepared, bind_eq_ok, exists_const, requirePhase_eq_ok] at h
  obtain ⟨hp, h⟩ := h
  have hs' : Sound (p.withIntegration { p.state.integration with
      ciFixProviderFallback := decide (outcome = .fallback) }) :=
    sound_withIntegration hs hs.integration
  cases outcome with
  | completed | skipped | fallback =>
    obtain ⟨rfl, -⟩ := Prod.mk.inj (Except.ok.inj h)
    exact ⟨⟨hs', rfl⟩, .stay rfl⟩
  | sandboxDowngraded scope =>
    obtain ⟨rfl, -⟩ := Prod.mk.inj (Except.ok.inj h)
    obtain ⟨hk, hshift⟩ := refines_noteOnce (.ciFixPrepared (.sandboxDowngraded scope)) hs' rfl
    exact ⟨⟨hk.sound, hk.config⟩, hshift⟩
  | escalated reason =>
    obtain ⟨hk, hhead, hpushed, hc⟩ := holdFailedPublishedCi_spec hs' h
    obtain ⟨head, hhead⟩ := Option.isSome_iff_exists.1 hhead
    refine ⟨⟨hk.sound, hk.config⟩, ?_⟩
    rw [hc]
    exact .ciHold hp hhead hpushed (.inr ⟨_, rfl⟩)

theorem ciFix_refines {outcome : LeafOutcome} (hs : Sound p)
    (h : p.ciFix outcome = .ok (q, effects)) : p.Refines (.ciFix outcome) q := by
  simp only [ciFix, bind_eq_ok, exists_const, requirePhase_eq_ok] at h
  obtain ⟨hp, ⟨r, more⟩, hr, h⟩ := h
  obtain ⟨rfl, -⟩ := Prod.mk.inj (Except.ok.inj h)
  have hhold : ∀ reason, p.holdFailedPublishedCi reason = .ok (r, more) → p.Refines (.ciFix outcome)
      (r.withIntegration { r.state.integration with ciFixProviderFallback := false }) := by
    intro reason hr
    obtain ⟨hk, hhead, hpushed, hc⟩ := holdFailedPublishedCi_spec hs hr
    obtain ⟨head, hhead⟩ := Option.isSome_iff_exists.1 hhead
    refine ⟨⟨sound_withIntegration hk.sound hk.sound.integration, hk.config⟩, ?_⟩
    have hshift : Shift p.config p.course (.ciFix outcome) r.course := by
      rw [hc]; exact .ciHold hp hhead hpushed (.inl ⟨_, rfl⟩)
    exact hshift
  cases outcome with
  | completed author =>
    obtain ⟨rfl, -⟩ := Prod.mk.inj (Except.ok.inj hr)
    exact ⟨⟨sound_withIntegration hs hs.integration, rfl⟩, .stay rfl⟩
  | retryableFailure reason | escalated reason | riskElevated author risk n
  | completedWithWontFix author n => exact hhold _ hr

theorem ciFixCommitted_refines {head : String} (hs : Sound p)
    (h : p.ciFixCommitted head = .ok (q, effects)) : p.Refines (.ciFixCommitted head) q := by
  simp only [ciFixCommitted, bind_eq_ok, exists_const, requirePhase_eq_ok, validateRef,
    require_eq_ok] at h
  obtain ⟨hp, href, h⟩ := h
  obtain ⟨rfl, -⟩ := Prod.mk.inj (Except.ok.inj h)
  obtain ⟨hrest, hh, hr, hv, hpub, hpre⟩ := coordinates hs
  exact ⟨⟨sound_withIntegration hs (partsOk_of hs.integration hrest hh hr hv (by simpa using href)
    hpre rfl), rfl⟩, .repaired hp⟩

end Ci

end Processor

end Orchestrail
