import Orchestrail.Proof.Sound

/-!
# Task turns refine the course

Each transition of one task moves exactly that task, along an `Arrow`, and keeps the data valid.
-/

namespace Orchestrail

open Std Table

namespace Processor

variable {p q : Processor} {effects : List Effect}

/-- One accepted command: validity kept, configuration kept, the course shifted. -/
structure Refines (p : Processor) (cmd : ProcessorCommand) (q : Processor) : Prop where
  keeps : p.Keeps q
  shift : Shift p.config p.course cmd q.course

/-- Commands that move the phase of one task and keep its tip. -/
def movesTask (id : String) (cmd : ProcessorCommand) : Prop :=
  silent cmd = true ∨ cmd = .workspaceReady id ∨ ∃ reason, cmd = .workspaceFailed id reason

theorem movesTask_not_committed {id : String} {cmd : ProcessorCommand} (h : movesTask id cmd)
    (id' sha : String) : cmd ≠ .taskCommitted id' sha := by
  rintro rfl
  simp [movesTask, silent] at h

theorem setTask_self {c : Course} {id : String} {m : Mark} (h : c.task id = some m) :
    c.setTask id m = c := by
  have : (fun k => if id = k then some m else c.task k) = c.task := by
    funext k
    by_cases hk : id = k
    · subst hk; simp [h]
    · simp [hk]
  simp [Course.setTask, this]

/-- An entry rewritten without moving the task. -/
theorem refines_same {cmd : ProcessorCommand} {id : String} {t u : TaskRuntime} (hs : Sound p)
    (ht : p.state.tasks[id]? = some t) (hu : TaskOk id u) (hm : u.mark = t.mark)
    (hcmd : silent cmd = true) : p.Refines cmd (p.withTask id u) := by
  refine ⟨⟨sound_withTask hs hu, rfl⟩, ?_⟩
  rw [course_withTask ht, hm, setTask_self (m := t.mark) (task_eq ht)]
  exact .stay hcmd

theorem refines_move {cmd : ProcessorCommand} {id : String} {t u : TaskRuntime} (hs : Sound p)
    (ht : p.state.tasks[id]? = some t) (hu : TaskOk id u) (hsha : u.reviewSha = t.reviewSha)
    (ha : Arrow p.state.phase t.phase u.phase) (hcmd : movesTask id cmd) :
    p.Refines cmd (p.withTask id u) := by
  refine ⟨⟨sound_withTask hs hu, rfl⟩, ?_⟩
  have hmark : u.mark = ⟨u.phase, (t.mark).tip⟩ := by simp [TaskRuntime.mark, hsha]
  rw [course_withTask ht, hmark]
  exact .task ha (task_eq ht) (movesTask_not_committed hcmd) hcmd

theorem taskOk_escalated {id reason : String} {u : TaskRuntime} (hu : TaskOk id u) :
    TaskOk id { u with phase := .escalated, reason := some reason } :=
  ⟨hu.key, hu.valid, hu.wave, hu.domain, hu.previous, hu.review, hu.native⟩

theorem refines_escalate {cmd : ProcessorCommand} {id reason : String} {t u : TaskRuntime}
    (hs : Sound p) (ht : p.state.tasks[id]? = some t) (hu : TaskOk id u)
    (hsha : u.reviewSha = t.reviewSha) (ha : Arrow p.state.phase t.phase .escalated)
    (hcmd : movesTask id cmd) (h : p.escalate id u reason = (q, effects)) : p.Refines cmd q := by
  obtain ⟨rfl, -⟩ := Prod.mk.inj h
  exact refines_move hs ht (taskOk_escalated hu) hsha ha hcmd

theorem requirePhase_eq_ok {ph : Phase} {operation : String} {u : Unit} :
    p.requirePhase ph operation = .ok u ↔ p.state.phase = ph := by
  simp [requirePhase]

theorem taskMut_eq_ok {id : String} {t : TaskRuntime} :
    p.taskMut id = .ok t ↔ p.state.tasks[id]? = some t := by
  simp [taskMut]

theorem expectTaskPhase_eq_ok {t : TaskRuntime} {ph : TaskPhase} {operation : String} {u : Unit} :
    expectTaskPhase t ph operation = .ok u ↔ t.phase = ph := by
  simp [expectTaskPhase]

theorem leafOf_eq_ok {t : TaskRuntime} {id operation : String} {kind : LeafKind}
    (h : leafOf t id operation = .ok kind) :
    t.phase = .implementing ∧ kind = .implement ∨ t.phase = .fixing ∧ kind = .fix := by
  unfold leafOf at h
  split at h <;> simp_all

theorem arrow_fail {ph : TaskPhase} (h : ph = .implementing ∨ ph = .reviewing ∨ ph = .fixing) :
    Arrow .rolling ph .escalated := by
  rcases h with rfl | rfl | rfl <;> exact .fail (by decide) (by decide) rfl

theorem workspaceReady_refines {id : String} (hs : Sound p)
    (h : p.workspaceReady id = .ok (q, effects)) : p.Refines (.workspaceReady id) q := by
  simp only [workspaceReady, bind_eq_ok, exists_const, requirePhase_eq_ok, taskMut_eq_ok] at h
  obtain ⟨hp, t, ht, h⟩ := h
  have hok := hs.tasks id t ht
  rw [hok.native] at h
  simp only [bind_eq_ok, exists_const, expectTaskPhase_eq_ok, Except.ok.injEq, Prod.mk.injEq] at h
  obtain ⟨hph, rfl, -⟩ := h
  exact refines_move hs ht ⟨hok.key, hok.valid, hok.wave, hok.domain, hok.previous, hok.review, rfl⟩
    rfl (by rw [hp, hph]; exact .start) (.inr (.inl rfl))

theorem workspaceFailed_refines {id reason : String} (hs : Sound p)
    (h : p.workspaceFailed id reason = .ok (q, effects)) :
    p.Refines (.workspaceFailed id reason) q := by
  simp only [workspaceFailed, bind_eq_ok, exists_const, taskMut_eq_ok, expectTaskPhase_eq_ok,
    Except.ok.injEq] at h
  obtain ⟨t, ht, hph, h⟩ := h
  exact refines_escalate hs ht (hs.tasks id t ht) rfl (by rw [hph]; exact .failEarly (.inl rfl))
    (.inr (.inr ⟨reason, rfl⟩)) h

theorem finishLeaf_refines {cmd : ProcessorCommand} {id : String} {t u : TaskRuntime}
    {kind : LeafKind} {author : Option String} {wontFixed : Option Nat} (hs : Sound p)
    (hp : p.state.phase = .rolling) (ht : p.state.tasks[id]? = some t)
    (hph : t.phase = .implementing ∨ t.phase = .fixing) (hu : TaskOk id u)
    (hsha : u.reviewSha = t.reviewSha) (hcmd : silent cmd = true)
    (h : p.finishLeaf id u kind author wontFixed = .ok (q, effects)) : p.Refines cmd q := by
  have hcommit : p.Refines cmd (p.withTask id
      { u with
        pendingFixOpenFindings := none, pendingFixOpenFindingIds := none
        implementationAuthor := author <|> u.implementationAuthor, phase := .committing }) :=
    refines_move hs ht
      ⟨hu.key, hu.valid, hu.wave, hu.domain, hu.previous, hu.review, hu.native⟩ hsha
      (by rw [hp]; exact .finish hph) (.inl hcmd)
  have hfail : Arrow p.state.phase t.phase .escalated := by
    rw [hp]; exact arrow_fail (hph.imp_right .inr)
  unfold finishLeaf at h
  cases wontFixed with
  | none =>
    obtain ⟨rfl, -⟩ := Prod.mk.inj (Except.ok.inj h)
    exact hcommit
  | some n =>
    simp only [bind_eq_ok] at h
    obtain ⟨_, -, h⟩ := h
    split at h
    · have hcleared : TaskOk id
          { u with pendingFixOpenFindings := none, pendingFixOpenFindingIds := none } :=
        ⟨hu.key, hu.valid, hu.wave, hu.domain, hu.previous, hu.review, hu.native⟩
      exact refines_escalate hs ht hcleared hsha hfail (.inl hcmd) (Except.ok.inj h)
    · obtain ⟨rfl, -⟩ := Prod.mk.inj (Except.ok.inj h)
      exact hcommit

theorem taskOk_risk {id : String} {u : TaskRuntime} (risk : Option Risk) (hu : TaskOk id u) :
    TaskOk id { u with risk := risk } :=
  ⟨hu.key, hu.valid, hu.wave, hu.domain, hu.previous, hu.review, hu.native⟩

theorem finishRaised_refines {cmd : ProcessorCommand} {id : String} {t : TaskRuntime}
    {kind : LeafKind} {author : Option String} {risk : Risk} {wontFixed : Option Nat} (hs : Sound p)
    (hp : p.state.phase = .rolling) (ht : p.state.tasks[id]? = some t)
    (hph : t.phase = .implementing ∨ t.phase = .fixing) (hcmd : silent cmd = true)
    (h : p.finishRaised id t kind author risk wontFixed = .ok (q, effects)) : p.Refines cmd q := by
  unfold finishRaised at h
  split at h
  · exact refines_escalate hs ht (hs.tasks id t ht) rfl
      (by rw [hp]; exact arrow_fail (hph.imp_right .inr)) (.inl hcmd) (Except.ok.inj h)
  · exact finishLeaf_refines hs hp ht hph (taskOk_risk (some risk) (hs.tasks id t ht)) rfl hcmd h

theorem taskOk_leafAttempt {id : String} {u : TaskRuntime} {kind : LeafKind} (hu : TaskOk id u) :
    TaskOk id (u.leafAttempt kind) :=
  ⟨hu.key, hu.valid, hu.wave, hu.domain, hu.previous, hu.review, hu.native⟩

theorem taskLeaf_refines {id : String} {outcome : LeafOutcome} (hs : Sound p)
    (h : p.taskLeaf id outcome = .ok (q, effects)) : p.Refines (.taskLeaf id outcome) q := by
  simp only [taskLeaf, bind_eq_ok, exists_const, requirePhase_eq_ok, taskMut_eq_ok] at h
  obtain ⟨hp, t, ht, kind, hkind, h⟩ := h
  have hph : t.phase = .implementing ∨ t.phase = .fixing :=
    (leafOf_eq_ok hkind).imp And.left And.left
  have hfail : Arrow p.state.phase t.phase .escalated := by
    rw [hp]; exact arrow_fail (hph.imp_right .inr)
  have hok := hs.tasks id t ht
  cases outcome with
  | completed author => exact finishLeaf_refines hs hp ht hph hok rfl rfl h
  | riskElevated author risk wontFixed => exact finishRaised_refines hs hp ht hph rfl h
  | completedWithWontFix author n => exact finishLeaf_refines hs hp ht hph hok rfl rfl h
  | retryableFailure reason =>
    simp only at h
    split at h
    · obtain ⟨rfl, -⟩ := Prod.mk.inj (Except.ok.inj h)
      exact refines_same hs ht (taskOk_leafAttempt hok) rfl rfl
    · exact refines_escalate hs ht hok rfl hfail (.inl rfl) (Except.ok.inj h)
  | escalated reason =>
    exact refines_escalate hs ht hok rfl hfail (.inl rfl) (Except.ok.inj h)

theorem sound_noteOnce {i : IntegrationRuntime} {note : String} (hs : Sound p) (hi : PartsOk i.parts) :
    Sound (p.withIntegration (i.noteOnce note)) := by
  refine sound_withIntegration hs ?_
  unfold IntegrationRuntime.noteOnce
  split <;> exact hi

theorem course_noteOnce {i : IntegrationRuntime} {note : String} :
    (p.withIntegration (i.noteOnce note)).course = (p.withIntegration i).course := by
  unfold IntegrationRuntime.noteOnce
  split <;> rfl

theorem refines_noteOnce (cmd : ProcessorCommand) {note : String} (hs : Sound p)
    (hcmd : silent cmd = true) :
    p.Refines cmd (p.withIntegration (p.state.integration.noteOnce note)) := by
  refine ⟨⟨sound_noteOnce hs hs.integration, rfl⟩, ?_⟩
  rw [course_noteOnce]
  exact .stay hcmd

theorem taskLeafPrepared_refines {id : String} {outcome : TaskLeafPreparationOutcome} (hs : Sound p)
    (h : p.taskLeafPrepared id outcome = .ok (q, effects)) :
    p.Refines (.taskLeafPrepared id outcome) q := by
  simp only [taskLeafPrepared, bind_eq_ok, exists_const, requirePhase_eq_ok, taskMut_eq_ok] at h
  obtain ⟨hp, t, ht, kind, hkind, h⟩ := h
  have hph : t.phase = .implementing ∨ t.phase = .fixing :=
    (leafOf_eq_ok hkind).imp And.left And.left
  have hok := hs.tasks id t ht
  cases outcome with
  | completed => exact finishLeaf_refines hs hp ht hph hok rfl rfl h
  | completedWithWontFix n => exact finishLeaf_refines hs hp ht hph hok rfl rfl h
  | riskElevated risk wontFixed => exact finishRaised_refines hs hp ht hph rfl h
  | skipped | fallback =>
    obtain ⟨rfl, -⟩ := Prod.mk.inj (Except.ok.inj h)
    exact ⟨⟨hs, rfl⟩, .stay rfl⟩
  | sandboxDowngraded scope =>
    obtain ⟨rfl, -⟩ := Prod.mk.inj (Except.ok.inj h)
    exact refines_noteOnce _ hs rfl
  | escalated reason =>
    exact refines_escalate hs ht hok rfl (by rw [hp]; exact arrow_fail (hph.imp_right .inr))
      (.inl rfl) (Except.ok.inj h)

theorem taskCommitted_refines {id commit : String} (hs : Sound p)
    (h : p.taskCommitted id commit = .ok (q, effects)) : p.Refines (.taskCommitted id commit) q := by
  simp only [taskCommitted, validateRef, bind_eq_ok, exists_const, taskMut_eq_ok,
    expectTaskPhase_eq_ok, require_eq_ok] at h
  obtain ⟨href, t, ht, hph, h⟩ := h
  have hok := hs.tasks id t ht
  have hmark := task_eq ht
  rw [hph] at hmark
  have hu : TaskOk id
      { t with phase := .reviewing, previousReviewSha := t.reviewSha, reviewSha := some commit } :=
    ⟨hok.key, hok.valid, hok.wave, hok.domain, hok.review, by simpa using href, hok.native⟩
  split at h
  · obtain ⟨rfl, -⟩ := Prod.mk.inj (Except.ok.inj h)
    refine ⟨⟨sound_withTask hs (taskOk_escalated hu), rfl⟩, ?_⟩
    rw [course_withTask ht]
    exact .taskCommitted (.failEarly (.inr rfl)) hmark
  · obtain ⟨rfl, -⟩ := Prod.mk.inj (Except.ok.inj h)
    refine ⟨⟨sound_withTask hs (taskOk_leafAttempt hu), rfl⟩, ?_⟩
    rw [course_withTask ht]
    exact .taskCommitted .commit hmark

theorem concludeReview_refines {cmd : ProcessorCommand} {id sha : String} {t u : TaskRuntime}
    (hs : Sound p) (hp : p.state.phase = .rolling) (ht : p.state.tasks[id]? = some t)
    (hph : t.phase = .reviewing) (hu : TaskOk id u) (hsha : u.reviewSha = t.reviewSha)
    (htip : t.reviewSha = some sha) (hcmd : silent cmd = true) (hclean : cleanReview id cmd = some sha)
    (h : p.concludeReview id u sha = .ok (q, effects)) : p.Refines cmd q := by
  have hu' : TaskOk id { u with reviewCycles := satAdd u.reviewCycles 1 } :=
    ⟨hu.key, hu.valid, hu.wave, hu.domain, hu.previous, hu.review, hu.native⟩
  have hfail : Arrow p.state.phase t.phase .escalated := by
    rw [hp]; exact arrow_fail (.inr (.inl hph))
  unfold concludeReview at h
  simp only at h
  split at h
  · exact refines_escalate hs ht hu' hsha hfail (.inl hcmd) (Except.ok.inj h)
  · obtain ⟨rfl, -⟩ := Prod.mk.inj (Except.ok.inj h)
    refine ⟨⟨sound_withTask hs
      ⟨hu.key, hu.valid, hu.wave, hu.domain, hu.previous, ?_, hu.native⟩, rfl⟩, ?_⟩
    · have := hu.review
      rw [hsha, htip] at this
      simpa using this
    · rw [course_withTask ht]
      refine .taskReady hp ?_ hclean
      rw [task_eq ht, hph, htip]

theorem recordFindings_refines {cmd : ProcessorCommand} {id signature : String} {t u : TaskRuntime}
    {n : Nat} {ids : List String} (hs : Sound p) (hp : p.state.phase = .rolling)
    (ht : p.state.tasks[id]? = some t) (hph : t.phase = .reviewing) (hu : TaskOk id u)
    (hsha : u.reviewSha = t.reviewSha) (hcmd : silent cmd = true)
    (h : p.recordFindings id u signature n ids = .ok (q, effects)) : p.Refines cmd q := by
  have hu' : TaskOk id
      { u with
        reviewCycles := satAdd u.reviewCycles 1
        reviewSignatures := u.reviewSignatures ++ [signature] } :=
    ⟨hu.key, hu.valid, hu.wave, hu.domain, hu.previous, hu.review, hu.native⟩
  have hfail : Arrow p.state.phase t.phase .escalated := by
    rw [hp]; exact arrow_fail (.inr (.inl hph))
  unfold recordFindings at h
  simp only at h
  split at h
  · exact refines_escalate hs ht hu' hsha hfail (.inl hcmd) (Except.ok.inj h)
  split at h
  · exact refines_escalate hs ht hu' hsha hfail (.inl hcmd) (Except.ok.inj h)
  · obtain ⟨rfl, -⟩ := Prod.mk.inj (Except.ok.inj h)
    exact refines_move hs ht
      ⟨hu.key, hu.valid, hu.wave, hu.domain, hu.previous, hu.review, hu.native⟩ hsha
      (by rw [hp, hph]; exact .fix) (.inl hcmd)

/-- The review of a task, as answered by its reviewer or by the preparation. -/
theorem taskReview_refines_as {cmd : ProcessorCommand} {id : String} {outcome : ReviewOutcome}
    (hs : Sound p) (hcmd : silent cmd = true)
    (hclean : ∀ sha, (outcome = .clean sha ∨ ∃ risk, outcome = .cleanRiskElevated sha risk) →
      cleanReview id cmd = some sha)
    (h : p.taskReview id outcome = .ok (q, effects)) : p.Refines cmd q := by
  simp only [taskReview, bind_eq_ok, exists_const, requirePhase_eq_ok, taskMut_eq_ok,
    expectTaskPhase_eq_ok] at h
  obtain ⟨hp, t, ht, hph, h⟩ := h
  have hok := hs.tasks id t ht
  have hcycle : TaskOk id { t with reviewCycles := satAdd t.reviewCycles 1 } :=
    ⟨hok.key, hok.valid, hok.wave, hok.domain, hok.previous, hok.review, hok.native⟩
  have hfail : Arrow p.state.phase t.phase .escalated := by
    rw [hp]; exact arrow_fail (.inr (.inl hph))
  cases outcome with
  | clean sha =>
    simp only [requireReviewedTip, validateRef, bind_eq_ok, exists_const, require_eq_ok] at h
    obtain ⟨⟨-, htip⟩, h⟩ := h
    exact concludeReview_refines hs hp ht hph hok rfl htip hcmd (hclean sha (.inl rfl)) h
  | cleanRiskElevated sha risk =>
    simp only [requireReviewedTip, validateRef, bind_eq_ok, exists_const, require_eq_ok] at h
    obtain ⟨⟨-, htip⟩, h⟩ := h
    split at h
    · exact refines_escalate hs ht hok rfl hfail (.inl hcmd) (Except.ok.inj h)
    · exact concludeReview_refines hs hp ht hph (taskOk_risk (some risk) hok) rfl htip hcmd
        (hclean sha (.inr ⟨risk, rfl⟩)) h
  | findings signature n ids =>
    simp only [bind_eq_ok] at h
    obtain ⟨_, -, h⟩ := h
    exact recordFindings_refines hs hp ht hph hok rfl hcmd h
  | findingsRiskElevated signature risk n ids =>
    simp only [bind_eq_ok] at h
    obtain ⟨_, -, h⟩ := h
    split at h
    · exact refines_escalate hs ht hok rfl hfail (.inl hcmd) (Except.ok.inj h)
    · exact recordFindings_refines hs hp ht hph (taskOk_risk (some risk) hok) rfl hcmd h
  | incomplete =>
    simp only at h
    split at h
    · exact refines_escalate hs ht hcycle rfl hfail (.inl hcmd) (Except.ok.inj h)
    · obtain ⟨rfl, -⟩ := Prod.mk.inj (Except.ok.inj h)
      exact refines_same hs ht (taskOk_leafAttempt hcycle) rfl hcmd
  | escalated reason =>
    exact refines_escalate hs ht hcycle rfl hfail (.inl hcmd) (Except.ok.inj h)

theorem taskReview_refines {id : String} {outcome : ReviewOutcome} (hs : Sound p)
    (h : p.taskReview id outcome = .ok (q, effects)) : p.Refines (.taskReview id outcome) q := by
  refine taskReview_refines_as hs rfl ?_ h
  rintro sha (rfl | ⟨risk, rfl⟩) <;> simp [cleanReview]

/-- A reserved attempt changes neither the course nor the validity. -/
theorem Refines.of_same_course {p' : Processor} {cmd : ProcessorCommand} (hc : p'.course = p.course)
    (hconfig : p'.config = p.config) (h : p'.Refines cmd q) : p.Refines cmd q :=
  ⟨⟨h.keeps.sound, h.keeps.config.trans hconfig⟩, hconfig ▸ hc ▸ h.shift⟩

theorem taskReviewPrepared_refines {id : String} {outcome : TaskReviewPreparationOutcome}
    (hs : Sound p) (h : p.taskReviewPrepared id outcome = .ok (q, effects)) :
    p.Refines (.taskReviewPrepared id outcome) q := by
  simp only [taskReviewPrepared, bind_eq_ok, exists_const, requirePhase_eq_ok, taskMut_eq_ok,
    expectTaskPhase_eq_ok] at h
  obtain ⟨hp, t, ht, hph, h⟩ := h
  have hok := hs.tasks id t ht
  split at h
  · exact refines_escalate hs ht hok rfl (by rw [hp]; exact arrow_fail (.inr (.inl hph))) (.inl rfl)
      (Except.ok.inj h)
  -- the attempt the preparation may still have to reserve
  obtain ⟨p', hp', hs', hc', hcfg⟩ : ∃ p', p' = (if (t.leafAttempts[LeafKind.review.asStr]?).getD 0 = 0
      then p.withTask id (t.leafAttempt .review) else p) ∧ Sound p' ∧ p'.course = p.course ∧
        p'.config = p.config := by
    refine ⟨_, rfl, ?_⟩
    split
    · refine ⟨sound_withTask hs (taskOk_leafAttempt hok), ?_, rfl⟩
      rw [course_withTask ht]
      exact setTask_self (m := t.mark) (task_eq ht)
    · exact ⟨hs, rfl, rfl⟩
  simp only [← hp'] at h
  refine .of_same_course hc' hcfg ?_
  cases outcome with
  | completed outcome =>
    refine taskReview_refines_as hs' rfl ?_ h
    rintro sha (rfl | ⟨risk, rfl⟩) <;> simp [cleanReview]
  | dispatchClaude =>
    obtain ⟨rfl, -⟩ := Prod.mk.inj (Except.ok.inj h)
    exact ⟨⟨hs', rfl⟩, .stay rfl⟩
  | sandboxDowngraded scope =>
    obtain ⟨rfl, -⟩ := Prod.mk.inj (Except.ok.inj h)
    exact refines_noteOnce _ hs' rfl

end Processor

end Orchestrail
