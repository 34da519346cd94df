import Mathlib.Data.List.Pairwise
import Orchestrail.Proof.Report

/-!
# Reports of the cohort turns

The boundaries the transitions share leave the tasks alone and ask for what is due (`Asks`). A budget
check hands on the call it was about, or halts (`Hands`).
-/

namespace Orchestrail

open Std Table Outcome

namespace Processor

variable {p q : Processor} {clean : Option String}

section Boundaries

/-- What a boundary does: it leaves the tasks alone and asks for what is due. -/
structure Asks (p : Processor) (x : Processor × List Effect) : Prop where
  tasks : x.1.state.tasks = p.state.tasks
  due : ∀ e ∈ x.2, x.1.Due none e

/-- A boundary reached after a turn of the tasks. -/
theorem Asks.report {p' : Processor} {x : Processor × List Effect} (h : p'.Asks x)
    (hf : Frame p.config.reviewLoopMax.toNat p.state.tasks p'.state.tasks) : p.Report none x :=
  ⟨by rw [h.tasks]; exact hf, h.due⟩

theorem asks_nil (h : q.state.tasks = p.state.tasks) : p.Asks (q, []) := ⟨h, by simp⟩

theorem asks_one {e : Effect} (h : q.state.tasks = p.state.tasks) (he : q.Due none e) :
    p.Asks (q, [e]) := ⟨h, by simpa using he⟩

theorem asks_two {e e' : Effect} (h : q.state.tasks = p.state.tasks) (he : q.Due none e)
    (he' : q.Due none e') : p.Asks (q, [e, e']) := ⟨h, by simp [he, he']⟩

/-- The cleanup of phase 6 archives nothing before the gate. -/
theorem cleanupEffects_due (hk : Keyed p.state.tasks) (hp : p.state.phase = .cleaning) :
    ∀ e ∈ p.cleanupEffects, p.Due none e := by
  have hjournal : ∀ e ∈ (if p.state.integration.cleanupJournaled then []
      else [Effect.writeJournalAndStatus]), p.Due none e := by
    split <;> simp [Due, DueNow]
  unfold cleanupEffects
  intro e he
  simp only at he
  split at he
  · rename_i hgate
    rcases List.mem_append.1 he with he | he
    · exact hjournal e he
    · obtain rfl := List.mem_singleton.1 he
      exact ⟨hp, by simpa using hgate⟩
  · rename_i hgate
    simp only [List.mem_append, List.mem_flatMap] at he
    rcases he with (he | ⟨t, ht, he⟩) | he
    · exact hjournal e he
    · obtain ⟨id, hid⟩ := mem_vals.1 ht
      unfold cleanupOf at he
      split at he
      · rename_i hph
        rcases List.mem_cons.1 he with rfl | he
        · refine ⟨hp, by simpa [Option.isSome_iff_ne_none] using hgate, .inl ⟨t, ?_, hph⟩⟩
          rw [hk id t hid]; exact hid
        · obtain rfl := List.mem_singleton.1 he
          trivial
      · rename_i hph
        rcases List.mem_cons.1 he with rfl | he
        · refine ⟨hp, by simpa [Option.isSome_iff_ne_none] using hgate, .inr ⟨t, ?_, hph⟩⟩
          rw [hk id t hid]; exact hid
        · obtain rfl := List.mem_singleton.1 he
          trivial
      · obtain rfl := List.mem_singleton.1 he
        trivial
      · obtain rfl := List.mem_singleton.1 he
        trivial
      · cases he
    · simp only [List.mem_cons, List.not_mem_nil, or_false] at he
      rcases he with rfl | rfl <;> trivial

theorem nextMergeOrReview_asks (hk : Keyed p.state.tasks) (hp : p.state.phase = .joining) :
    Post p.nextMergeOrReview p.Asks := by
  unfold nextMergeOrReview
  split
  · simp only [post_bind]
    exact post_of_forall fun branch => post_ok.2 (asks_one rfl hp)
  rename_i hprep
  split
  · rename_i hres
    exact post_ok.2 (asks_one rfl ⟨hp, hres⟩)
  rename_i hres
  split
  · rename_i t ts ht
    refine post_ok.2 (asks_one rfl ⟨hp, by simpa using hprep, by simpa using hres, t, ?_, ?_⟩)
    · have hmem : t ∈ p.tasksReadyToMerge := by simp [ht]
      obtain ⟨⟨id, hid⟩, -⟩ := mem_readyToMerge.1 hmem
      rw [hk id t hid]; exact hid
    · exact (mem_readyToMerge.1 (by simp [ht] : t ∈ p.tasksReadyToMerge)).2
  split
  · exact post_ok.2 (asks_one rfl trivial)
  · exact post_ok.2 (asks_one rfl (by exact (rfl : Phase.publishing = .publishing)))

theorem afterAdmissionClosed_asks (hk : Keyed p.state.tasks) :
    Post p.afterAdmissionClosed p.Asks := by
  unfold afterAdmissionClosed
  split
  · exact post_ok.2 (asks_nil rfl)
  split
  · simp only [post_bind]
    exact post_of_forall fun branch => post_ok.2 (asks_one rfl (by exact (rfl : Phase.joining = .joining)))
  · exact post_ok.2 ⟨rfl, cleanupEffects_due (p := p.withPhase .cleaning) hk rfl⟩

theorem failIntegration_asks {reason : String} : Post (p.failIntegration reason) p.Asks :=
  post_ok.2 (asks_two rfl trivial trivial)

theorem publishingResumeEffect_asks (hp : p.state.phase = .publishing) :
    Post p.publishingResumeEffect fun x => p.Asks (x.1, [x.2]) := by
  unfold publishingResumeEffect
  dsimp only
  split
  · rename_i hre
    simp only [post_bind]
    exact post_of_forall fun id => post_ok.2 (asks_one rfl ⟨hp, hre⟩)
  split
  · rename_i head hhead
    exact post_ok.2 (asks_one rfl ⟨hp, hhead⟩)
  split
  · rename_i hver
    simp only [post_bind]
    exact post_of_forall fun id => post_ok.2 (asks_one rfl ⟨hp, hver.1, hver.2.symm⟩)
  split
  · exact post_ok.2 (asks_one rfl trivial)
  · exact post_ok.2 (asks_one rfl hp)

end Boundaries

section CohortTurns

theorem openCohort_report {batchId base : String} {now : Nat} :
    Post (p.openCohort batchId base now) (p.Report none) := by
  simp only [openCohort, post_bind, post_require, post_ok]
  intro _
  exact post_check (post_check (report_one .empty ⟨rfl, rfl⟩))

theorem rollingBoundaryEffect_due (hp : p.state.phase = .rolling) : p.Due none p.rollingBoundaryEffect := by
  unfold rollingBoundaryEffect inboxReconciliationEffect
  split
  · exact ⟨hp, rfl⟩
  · rename_i h
    exact ⟨hp, by simpa using h⟩

theorem dependencyGraphRefreshed_report {boundary : RefreshBoundary} {outcome : LeafOutcome} :
    Post (p.dependencyGraphRefreshed boundary outcome) (p.Report none) := by
  unfold dependencyGraphRefreshed
  cases boundary with
  | cohortOpen =>
    simp only [post_bind, post_requirePhase, post_require]
    intro hp _
    split
    · exact post_ok.2 (report_two .refl trivial ⟨hp, rfl⟩)
    · exact post_ok.2 (report_one .refl ⟨hp, rfl⟩)
  | postArchive =>
    simp only [post_bind, post_requirePhase, post_require]
    intro hp _
    split
    · exact post_ok.2 (report_two .refl trivial hp)
    · exact post_ok.2 (report_one .refl hp)

theorem inboxReconciled_report {n : Nat} {curation : Bool} :
    Post (p.inboxReconciled n curation) (p.Report none) := by
  simp only [inboxReconciled, validateInboxWave, post_bind, post_requirePhase, post_require, post_ok]
  intro hp hn
  refine report_one .refl ?_
  split
  · exact ⟨hp, hn⟩
  · exact ⟨hp, hn⟩

theorem inboxCurated_report {n : Nat} {mode : InboxCurationMode} {outcome : LeafOutcome} :
    Post (p.inboxCurated n mode outcome) (p.Report none) := by
  have hhold : ∀ reason, Post (p.holdInbox reason) (p.Report none) := fun reason =>
    post_ok.2 (report_one .refl trivial)
  simp only [inboxCurated, post_bind]
  cases outcome with
  | completed author =>
    cases mode with
    | intake =>
      simp only [validateCuration, validateInboxWave, post_bind, post_requirePhase, post_require,
        post_ok]
      intro hp hn
      exact report_one .refl ⟨hp, hn⟩
    | finalize => exact post_check (post_ok.2 (report_nil .refl))
  | retryableFailure reason | escalated reason => exact post_check (hhold _)
  | riskElevated author risk wontFixed => exact post_check (hhold _)
  | completedWithWontFix author n => exact post_check (hhold _)

theorem inboxDrained_report {n : Nat} : Post (p.inboxDrained n) (p.Report none) := by
  simp only [inboxDrained, validateInboxWave, post_bind, post_requirePhase, post_require, post_ok]
  intro hp hn
  exact report_one .refl ⟨hp, hn⟩

theorem inboxFinalizationReconciled_report {curation : Bool} :
    Post (p.inboxFinalizationReconciled curation) (p.Report none) := by
  simp only [inboxFinalizationReconciled, post_bind, post_requirePhase, post_ok]
  intro hp
  split
  · exact report_one .refl hp
  · exact report_nil .refl

theorem closeForBudgetIfNeeded_frame (p : Processor) (now : Nat) :
    (p.closeForBudgetIfNeeded now).state.tasks = p.state.tasks ∧
      (p.closeForBudgetIfNeeded now).config = p.config ∧
        (p.closeForBudgetIfNeeded now).state.phase = p.state.phase := by
  unfold closeForBudgetIfNeeded
  split
  · exact ⟨rfl, rfl, rfl⟩
  split
  · exact ⟨rfl, rfl, rfl⟩
  · dsimp only
    split <;> exact ⟨rfl, rfl, rfl⟩

/-- An admitted wave: fresh tasks within the free slots, whose domains keep clear of each other and of
every task that blocks admission. -/
structure Wave (p : Processor) (selected : List AdmissionCandidate) (x : Processor × List Effect) :
    Prop where
  rolling : p.state.phase = .rolling
  nodup : (selected.map (·.id)).Nodup
  fits : selected.length ≤ p.freeSlots
  fresh : ∀ c ∈ selected, p.state.tasks[c.id]? = none
  admitted : ∃ wave, ∀ c ∈ selected, x.1.state.tasks[c.id]? = some (TaskRuntime.new c wave)
  kept : ∀ k, k ∉ selected.map (·.id) → x.1.state.tasks[k]? = p.state.tasks[k]?
  apart : ∀ c ∈ selected, ∀ d ∈ selected, c.id ≠ d.id →
    (Domain.parse c.conflictDomain).intersects (Domain.parse d.conflictDomain) = false
  clear : ∀ c ∈ selected, ∀ a ∈ p.activeTasks,
    a.domain.intersects (Domain.parse c.conflictDomain) = false
  due : ∀ e ∈ x.2, x.1.Due none e

/-- The selected candidates of a plan are the ones it took, so what it checked holds of them. -/
theorem selected_taken {candidates : List AdmissionCandidate} {taken : List Candidate}
    (hsub : taken.Sublist (candidates.map resolverCandidate))
    (hnd : ((candidates.filter fun c => (taken.map (·.id)).contains c.id).map (·.id)).Nodup)
    {c : AdmissionCandidate}
    (hc : c ∈ candidates.filter fun c => (taken.map (·.id)).contains c.id) :
    resolverCandidate c ∈ taken := by
  have hin : c.id ∈ taken.map (·.id) := by simpa using (List.mem_filter.1 hc).2
  obtain ⟨t, ht, hid⟩ := List.mem_map.1 hin
  obtain ⟨c', hc', rfl⟩ := List.mem_map.1 (hsub.subset ht)
  -- two selected candidates of one id are the same candidate
  have hsel : c' ∈ candidates.filter fun c => (taken.map (·.id)).contains c.id := by
    refine List.mem_filter.2 ⟨hc', ?_⟩
    simpa using (⟨_, ht, rfl⟩ : ∃ t ∈ taken, t.id = c'.id)
  obtain rfl : c' = c := List.inj_on_of_nodup_map hnd hsel hc hid
  exact ht

theorem admitWave_report {candidates : List AdmissionCandidate} {now : Nat} (hs : Sound p) :
    Post (p.admitWave candidates now) fun x =>
      p.Report none x ∨ ∃ selected, p.Wave selected x := by
  simp only [admitWave, post_bind, post_requirePhase, post_orError, post_ite]
  intro hp
  refine post_check fun b _ => ?_
  obtain ⟨htasks, hconfig, hphase⟩ := closeForBudgetIfNeeded_frame p now
  have hframe : Frame p.config.reviewLoopMax.toNat p.state.tasks
      (p.closeForBudgetIfNeeded now).state.tasks := by rw [htasks]; exact .refl
  have hk : Keyed (p.closeForBudgetIfNeeded now).state.tasks := htasks ▸ keyed hs
  have hslots : (p.closeForBudgetIfNeeded now).freeSlots = p.freeSlots := by
    unfold freeSlots taskList; rw [htasks, hconfig]
  have hactive : (p.closeForBudgetIfNeeded now).activeTasks = p.activeTasks := by
    unfold activeTasks taskList; rw [htasks]
  generalize p.closeForBudgetIfNeeded now = r at *
  refine ⟨fun _ => (afterAdmissionClosed_asks hk).mono fun x h => .inl (h.report hframe), fun _ => ?_⟩
  split
  · rename_i ids hplan
    simp only [post_bind, post_ok]
    refine fun tasks hinsert => .inr ⟨candidates.filter fun c => ids.contains c.id, ?_⟩
    obtain ⟨hnd, hin, hout, -⟩ := insertWave_spec hinsert
    obtain ⟨hsub, hcap, -⟩ := planAdmission_admitted hplan
    obtain ⟨taken, htaken, htsub, hclear, hpair⟩ := takeWave_clear r.activeTasks
      (min r.freeSlots (r.config.cohortSize.toNat - b.admittedTotal))
      (candidates.map resolverCandidate) [] []
    obtain rfl : taken.map (·.id) = ids := by
      unfold planAdmission at hplan
      dsimp only at hplan
      rw [htaken, List.nil_append] at hplan
      split at hplan
      · cases hplan
      · exact AdmissionOutcome.admitted.inj hplan
    have hlen := selected_length (by
      simpa [List.map_map, Function.comp_def, resolverCandidate] using hsub) hnd
    obtain ⟨htasks', -, -⟩ := closeForBudgetIfNeeded_frame
      ((r.withTasks tasks).withBatch (some
        { b with
          admittedTotal := satAdd b.admittedTotal ((taken.map (·.id)).length % (u32Max + 1))
          wave := satAdd b.wave 1 })) now
    constructor
    · exact hp
    · exact hnd
    · rw [hlen]
      exact (hcap.trans (Nat.min_le_left _ _)).trans_eq hslots
    · intro c hc
      rw [← htasks]; exact (hin c hc).2.1
    · exact ⟨b.wave, fun c hc => by rw [htasks']; exact (hin c hc).2.2⟩
    · intro k hnot
      rw [htasks']; exact (hout k hnot).trans (by rw [htasks])
    · intro c hc d hd hne
      have hcd : resolverCandidate c ≠ resolverCandidate d := fun h => hne (congrArg (·.id) h)
      have : Std.Symm fun x y : Candidate => x.domain.intersects y.domain = false :=
        ⟨fun x y h => (Domain.intersects_comm _ _).trans h⟩
      exact hpair.forall (selected_taken htsub hnd hc) (selected_taken htsub hnd hd) hcd
    · intro c hc a ha
      rw [← hactive] at ha
      exact (hclear _ (selected_taken htsub hnd hc)).2 a ha
    · intro e he
      obtain ⟨c, hc, rfl⟩ := List.mem_map.1 he
      exact ⟨_, by rw [htasks']; exact (hin c hc).2.2, rfl⟩
  · split
    · refine (afterAdmissionClosed_asks (p := r.closeAdmission _) hk).mono fun x h => .inl ?_
      exact h.report hframe
    · exact post_ok.2 (.inl (report_nil hframe))

theorem advance_report {now : Nat} (hs : Sound p) : Post (p.advance now) (p.Report none) := by
  simp only [advance, post_bind, post_requirePhase, post_ite]
  intro hp
  obtain ⟨htasks, -, hphase⟩ := closeForBudgetIfNeeded_frame p now
  have hframe : Frame p.config.reviewLoopMax.toNat p.state.tasks
      (p.closeForBudgetIfNeeded now).state.tasks := by rw [htasks]; exact .refl
  refine ⟨fun _ => post_ok.2 (report_one hframe ⟨hphase.trans hp, rfl⟩), fun _ => ?_⟩
  exact (afterAdmissionClosed_asks (htasks ▸ keyed hs)).mono fun x hx => hx.report hframe

/-- The ids of the active tasks are listed once. -/
theorem nodup_activeIds (hk : Keyed p.state.tasks) :
    ((p.taskList.filter (·.phase.isActive)).map (·.id)).Nodup := nodup_keyed hk _

theorem haltFor_report {close : CloseReason} {reason : String} (hs : Sound p) :
    Post (p.haltFor close reason) (p.Report none) := by
  unfold haltFor
  simp only [post_bind]
  -- closing admission leaves the tasks alone
  generalize hp' : (if p.state.batch.any (·.admissionClosed.isNone) then p.closeAdmission close
    else p) = p'
  have htasks : p'.state.tasks = p.state.tasks := by rw [← hp']; split <;> rfl
  intro x hx
  simp only [escalateEach, bind_eq_ok] at hx
  obtain ⟨tasks, hupd, hx⟩ := hx
  obtain rfl := Except.ok.inj hx
  have hk : Keyed p'.state.tasks := htasks ▸ keyed hs
  have hframe : Frame p.config.reviewLoopMax.toNat p.state.tasks tasks := by
    have hact : ∀ id ∈ (p'.taskList.filter (·.phase.isActive)).map (·.id),
        ∃ t, p'.state.tasks[id]? = some t ∧ t.phase.isActive = true := by
      intro id hid
      obtain ⟨t, ht, rfl⟩ := List.mem_map.1 hid
      obtain ⟨ht, hact⟩ := List.mem_filter.1 ht
      obtain ⟨k, hk'⟩ := mem_vals.1 ht
      exact ⟨t, (hk k t hk').symm ▸ hk', hact⟩
    obtain ⟨hin, hout⟩ := updateEach_getElem? (nodup_activeIds hk) hupd
    intro id u hu
    by_cases hid : id ∈ (p'.taskList.filter (·.phase.isActive)).map (·.id)
    · obtain ⟨t, u', ht, hf, hu'⟩ := hin id hid
      obtain rfl : u' = u := Option.some.inj (hu'.symm.trans hu)
      obtain rfl := Except.ok.inj hf
      obtain ⟨t', ht', hact⟩ := hact id hid
      obtain rfl : t = t' := Option.some.inj (ht.symm.trans ht')
      refine ⟨t, htasks ▸ ht, .rise .escalated ⟨rfl, rfl, rfl⟩ rfl ?_ (by decide)⟩
      exact (TaskPhase.active_iff_rank.1 hact).trans (by decide)
    · exact ⟨u, htasks ▸ (hout id hid) ▸ hu, .refl⟩
  have hk' : Keyed tasks := by
    intro id u hu
    obtain ⟨t, ht, hev⟩ := hframe id u hu
    exact hev.id.trans (keyed hs id t ht)
  refine (afterAdmissionClosed_asks (p := p'.withTasks tasks) hk').mono fun y hy => post_ok.2 ?_
  refine ⟨(hy.report hframe).frame, fun e he => ?_⟩
  rcases List.mem_append.1 he with he | he
  · obtain ⟨id, -, rfl⟩ := List.mem_map.1 he
    trivial
  · exact hy.due e he

/-- A budget check hands on the call it was about, or halts. -/
structure Hands (p : Processor) (next : ModelCall) (x : Processor × List Effect) : Prop where
  frame : Frame p.config.reviewLoopMax.toNat p.state.tasks x.1.state.tasks
  due : ∀ e ∈ x.2, x.1.Due none e ∨ e = next.intoEffect ∨ e = .checkTokenBudget next

theorem Report.hands {next : ModelCall} {x : Processor × List Effect} (h : p.Report none x) :
    p.Hands next x := ⟨h.frame, fun e he => .inl (h.due e he)⟩

theorem cohortBudgetChecked_hands {next : ModelCall} {now : Nat} (hs : Sound p) :
    Post (p.cohortBudgetChecked next now) (p.Hands next) := by
  simp only [cohortBudgetChecked, post_bind, post_orError, post_require, post_ite, post_ok]
  intro limit _ batch _ _
  refine ⟨fun _ => (haltFor_report hs).mono fun x => Report.hands, fun _ => ⟨.refl, fun e he => ?_⟩⟩
  obtain rfl := List.mem_singleton.1 he
  split
  · exact .inr (.inr rfl)
  · exact .inr (.inl rfl)

theorem tokenBudgetChecked_hands {next : ModelCall} {observation : TokenBudgetObservation}
    (hs : Sound p) : Post (p.tokenBudgetChecked next observation) (p.Hands next) := by
  have hhalt : ∀ (batch : CohortRuntime) (tokens : Option Nat) (reason : String), p.state.batch = some batch →
      Post ((p.withBatch (some { batch with tokenBudgetActualTokens := tokens })).haltForTokenBudget
        reason) (p.Hands next) := by
    intro batch tokens reason hb
    have hok := hs.batch batch (by simp [hb])
    refine (haltFor_report (sound_withBatch hs ?_)).mono fun x h => (Report.hands ⟨h.frame, h.due⟩)
    rintro b hb
    obtain rfl := Option.some.inj hb
    exact ⟨hok.id, hok.base, hok.wave, hok.budget, hok.tokens, hok.strict, hok.events⟩
  simp only [tokenBudgetChecked, post_bind, post_orError, post_require]
  intro limit _ batch hb _
  cases observation with
  | actual tokens =>
    simp only [post_ite, post_ok]
    refine ⟨fun _ => ⟨.refl, fun e he => ?_⟩, fun _ => hhalt batch _ _ hb⟩
    obtain rfl := List.mem_singleton.1 he
    exact .inr (.inl rfl)
  | unavailable => exact hhalt batch _ _ hb

theorem pause_report : Post p.pause (p.Report none) := by
  simp only [pause, post_ite, post_ok]
  exact ⟨fun _ => report_one .refl trivial, fun _ => report_one .refl trivial⟩

theorem resume_report (hs : Sound p) : Post p.resume (p.Report none) := by
  simp only [resume, post_bind, post_require]
  intro _
  split
  · rename_i hph
    exact post_ok.2 (report_one .refl (rollingBoundaryEffect_due hph))
  · rename_i hph
    exact Post.mono (nextMergeOrReview_asks (keyed hs) hph) fun x h => Asks.report h .refl
  · rename_i hph
    simp only [post_bind]
    exact Post.mono (publishingResumeEffect_asks hph) fun x h => post_ok.2 (Asks.report h .refl)
  all_goals exact post_ok.2 (report_one .refl trivial)

end CohortTurns

end Processor

end Orchestrail
