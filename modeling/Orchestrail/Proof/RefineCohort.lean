import Mathlib.Data.List.Perm.Subperm
import Mathlib.Data.List.TakeWhile
import Orchestrail.Proof.RefineTask

/-!
# Cohort turns refine the course

Opening, the inbox and dependency boundaries, the admission of a wave, the budget checks with their
halt, the end of admission, pause and resume.
-/

namespace Orchestrail

open Std Table

namespace Processor

variable {p q : Processor} {effects : List Effect}

theorem refines_stay {cmd : ProcessorCommand} (hs : Sound p) (hcmd : silent cmd = true) :
    p.Refines cmd p :=
  ⟨⟨hs, rfl⟩, .stay hcmd⟩

theorem openCohort_refines {id base : String} {now : Nat} (hs : Sound p)
    (h : p.openCohort id base now = .ok (q, effects)) : p.Refines (.openCohort id base now) q := by
  simp only [openCohort, bind_eq_ok, exists_const, require_eq_ok, validateBatchId, validateRef,
    Except.ok.injEq, Prod.mk.injEq] at h
  obtain ⟨⟨hp, hb⟩, hid, hbase, rfl, -⟩ := h
  refine ⟨⟨⟨hs.version, by simp [withTasks, withPhase], ?_, ⟨rfl, ?_, ?_, hs.integration.curations⟩⟩, rfl⟩, ?_⟩
  · simp only [withPhase, withTasks, withIntegration, withBatch, Option.mem_def, Option.some.injEq,
      forall_eq']
    exact ⟨hid, hbase, by simp, rfl, rfl, rfl, rfl⟩
  · simp [withPhase, withTasks, withIntegration, withBatch, IntegrationRuntime.parts]
  · simp [withPhase, withTasks, withIntegration, withBatch, IntegrationRuntime.parts]
  · let b : CohortRuntime :=
      { id := id, base := base, startedAtSecs := now, wave := 1, admittedTotal := 0
        admissionClosed := none, cohortBudgetSecs := p.config.cohortBudgetSecs
        cohortTokenBudget := p.config.cohortTokenBudget
        cohortTokenBudgetStrict := p.config.cohortTokenBudgetStrict
        tokenBudgetActualTokens := none, eventsOutboxEnabled := p.config.eventsOutboxEnabled }
    have hshift : Shift p.config p.course (.openCohort b.id b.base b.startedAtSecs) _ :=
      .openCohort hp (by simp [course, hb]) rfl rfl
    simpa [course, withPhase, withTasks, withIntegration, withBatch, CohortRuntime.erased, b]
      using hshift

theorem dependencyGraphRefreshed_refines {boundary : RefreshBoundary} {outcome : LeafOutcome}
    (hs : Sound p) (h : p.dependencyGraphRefreshed boundary outcome = .ok (q, effects)) :
    p.Refines (.dependencyGraphRefreshed boundary outcome) q := by
  unfold dependencyGraphRefreshed at h
  cases boundary with
  | cohortOpen =>
    simp only [bind_eq_ok, exists_const, requirePhase_eq_ok, require_eq_ok] at h
    obtain ⟨hp, hr, h⟩ := h
    split at h <;> obtain ⟨rfl, -⟩ := Prod.mk.inj (Except.ok.inj h)
    all_goals exact ⟨⟨hs, rfl⟩, .refreshOpen hp hr⟩
  | postArchive =>
    simp only [bind_eq_ok, exists_const, requirePhase_eq_ok, require_eq_ok] at h
    obtain ⟨hp, hr, h⟩ := h
    split at h <;> obtain ⟨rfl, -⟩ := Prod.mk.inj (Except.ok.inj h)
    all_goals exact ⟨⟨hs, rfl⟩, .refreshPost hp hr⟩

theorem inboxReconciled_refines {n : Nat} {required : Bool} (hs : Sound p)
    (h : p.inboxReconciled n required = .ok (q, effects)) :
    p.Refines (.inboxReconciled n required) q := by
  simp only [inboxReconciled, bind_eq_ok, Except.ok.injEq, Prod.mk.injEq] at h
  obtain ⟨_, _, rfl, -⟩ := h
  exact refines_stay hs rfl

theorem inboxDrained_refines {n : Nat} (hs : Sound p)
    (h : p.inboxDrained n = .ok (q, effects)) : p.Refines (.inboxDrained n) q := by
  simp only [inboxDrained, bind_eq_ok, Except.ok.injEq, Prod.mk.injEq] at h
  obtain ⟨_, _, rfl, -⟩ := h
  exact refines_stay hs rfl

theorem inboxFinalizationReconciled_refines {required : Bool} (hs : Sound p)
    (h : p.inboxFinalizationReconciled required = .ok (q, effects)) :
    p.Refines (.inboxFinalizationReconciled required) q := by
  simp only [inboxFinalizationReconciled, bind_eq_ok, Except.ok.injEq, Prod.mk.injEq] at h
  obtain ⟨_, _, rfl, -⟩ := h
  exact refines_stay hs rfl

theorem refines_hold {cmd : ProcessorCommand} {reason : String} (hs : Sound p)
    (hcmd : mayHold p.state.phase cmd = true) : p.Refines cmd (p.blocked reason) :=
  ⟨⟨hs, rfl⟩, .hold hcmd⟩

theorem inboxCurated_refines {n : Nat} {mode : InboxCurationMode} {outcome : LeafOutcome}
    (hs : Sound p) (h : p.inboxCurated n mode outcome = .ok (q, effects)) :
    p.Refines (.inboxCurated n mode outcome) q := by
  simp only [inboxCurated, bind_eq_ok] at h
  obtain ⟨_, hvalid, h⟩ := h
  have hphase : mode = .intake ∧ p.state.phase = .rolling ∨
      mode = .finalize ∧ p.state.phase = .cleaning := by
    cases mode <;> simp only [validateCuration, validateInboxWave, bind_eq_ok, exists_const,
      requirePhase_eq_ok] at hvalid
    · exact .inl ⟨rfl, hvalid.1⟩
    · exact .inr ⟨rfl, hvalid.1⟩
  cases outcome with
  | completed author =>
    cases mode <;> obtain ⟨rfl, -⟩ := Prod.mk.inj (Except.ok.inj h) <;> exact refines_stay hs rfl
  | retryableFailure reason | escalated reason | riskElevated author risk n
  | completedWithWontFix author n =>
    obtain ⟨rfl, -⟩ := Prod.mk.inj (Except.ok.inj h)
    rcases hphase with ⟨rfl, hphase⟩ | ⟨rfl, hphase⟩ <;>
      exact refines_hold hs (by rw [hphase]; rfl)

section Admission

theorem batchOk_closed {config : ProcessorConfig} {b : CohortRuntime} {reason : Option CloseReasonWire}
    (h : BatchOk config b) : BatchOk config { b with admissionClosed := reason } :=
  ⟨h.id, h.base, h.wave, h.budget, h.tokens, h.strict, h.events⟩

theorem sound_closeAdmission (hs : Sound p) (reason : CloseReason) :
    Sound (p.closeAdmission reason) := by
  refine sound_withBatch hs fun b hb => ?_
  obtain ⟨b', hb', rfl⟩ := Option.map_eq_some_iff.1 hb
  exact batchOk_closed (hs.batch b' hb')

/-- What `closeForBudgetIfNeeded` does: nothing, or it closes an open admission. -/
theorem closeForBudget_cases (p : Processor) (now : Nat) :
    p.closeForBudgetIfNeeded now = p ∨ ∃ b reason, p.state.batch = some b ∧ b.admissionClosed = none ∧
      p.closeForBudgetIfNeeded now = p.closeAdmission reason := by
  unfold closeForBudgetIfNeeded
  split
  · exact .inl rfl
  · rename_i b hb
    split
    · exact .inl rfl
    · rename_i hopen
      simp only
      split
      · exact .inr ⟨b, _, hb, by simpa using hopen, rfl⟩
      · exact .inl rfl

theorem course_closeAdmission (reason : CloseReason) :
    (p.closeAdmission reason).course =
      { p.course with batch := p.course.batch.map fun b => { b with admissionClosed := some reason.toWire } } := by
  simp [closeAdmission, course, withBatch, Option.map_map, Function.comp_def, CohortRuntime.erased]

/-- The processor after the budget gate: sound, and at most its admission closed. -/
structure Gated (p q : Processor) : Prop where
  keeps : p.Keeps q
  course : q.course = { p.course with batch := q.course.batch }
  closes : Closes p.course.batch q.course.batch
  tasks : q.state.tasks = p.state.tasks
  same : (∀ b, q.state.batch = some b → b.admissionClosed = none) → q = p

theorem gated (hs : Sound p) (now : Nat) : p.Gated (p.closeForBudgetIfNeeded now) := by
  rcases closeForBudget_cases p now with h | ⟨b, reason, hb, hopen, h⟩
  · rw [h]; exact ⟨⟨hs, rfl⟩, rfl, .same, rfl, fun _ => rfl⟩
  · rw [h]
    refine ⟨⟨sound_closeAdmission hs reason, rfl⟩, ?_, ?_, rfl, ?_⟩
    · rw [course_closeAdmission]
    · rw [course_closeAdmission]
      simp only [Processor.course, hb, Option.map_some]
      exact .close hopen
    · intro hall
      have := hall { b with admissionClosed := some reason.toWire }
        (by simp [closeAdmission, withBatch, hb])
      simp at this

theorem conflictDomain_not_blank {value : String} (h : isConflictDomain value = true) :
    Text.isBlank value = false := by
  rw [← Bool.not_eq_true]
  intro hb
  have hpieces : ∀ (sep : Char → Bool) (s : List Char), s.all Text.isWhiteSpace = true →
      ∀ piece ∈ Text.pieces sep s, piece.all Text.isWhiteSpace = true := by
    intro sep s
    induction s with
    | nil => simp [Text.pieces]
    | cons ch s ih =>
      intro hall piece hp
      simp only [List.all_cons, Bool.and_eq_true] at hall
      simp only [Text.pieces] at hp
      split at hp
      · rcases List.mem_cons.1 hp with rfl | hp
        · rfl
        · exact ih hall.2 piece hp
      · split at hp
        · simp only [List.mem_singleton] at hp; subst hp; simp [hall.1]
        · rename_i first more heq
          rcases List.mem_cons.1 hp with rfl | hp
          · have := ih hall.2 first (by rw [heq]; exact List.mem_cons_self)
            simp only [List.all_cons, Bool.and_eq_true]
            exact ⟨hall.1, this⟩
          · exact ih hall.2 piece (by rw [heq]; exact List.mem_cons_of_mem _ hp)
  have htrim : ∀ s : List Char, s.all Text.isWhiteSpace = true → Text.trim s = [] := by
    intro s hall
    have : s.dropWhile Text.isWhiteSpace = [] := by
      rw [List.dropWhile_eq_nil_iff]; simpa using hall
    simp [Text.trim, this]
  have hnil : domainTokens value = [] := by
    simp only [domainTokens, List.filter_eq_nil_iff, List.mem_map, forall_exists_index, and_imp,
      forall_apply_eq_imp_iff₂]
    intro piece hp
    simp [htrim piece (hpieces _ _ hb piece hp)]
  simp [isConflictDomain, hnil] at h

/-- What the insertion of a wave did. -/
theorem insertWave_spec {wave : Nat} :
    ∀ {cs : List AdmissionCandidate} {tasks tasks' : StringMap TaskRuntime},
      insertWave wave cs tasks = .ok tasks' →
      (cs.map (·.id)).Nodup ∧ (∀ c ∈ cs, isTaskId c.id = true ∧ tasks[c.id]? = none ∧
        tasks'[c.id]? = some (TaskRuntime.new c wave)) ∧
      (∀ k, k ∉ cs.map (·.id) → tasks'[k]? = tasks[k]?) ∧ tasks'.size = tasks.size + cs.length
  | [], tasks, tasks', h => by
    obtain rfl := Except.ok.inj h
    simp
  | c :: cs, tasks, tasks', h => by
    simp only [insertWave, validateTaskId, bind_eq_ok, exists_const, require_eq_ok] at h
    obtain ⟨hid, hfresh, h⟩ := h
    obtain ⟨hnd, hin, hout, hsize⟩ := insertWave_spec h
    have hnot : c.id ∉ cs.map (·.id) := by
      intro hm
      obtain ⟨c', hc', he⟩ := List.mem_map.1 hm
      have := (hin c' hc').2.1
      rw [he] at this
      simp at this
    refine ⟨by simpa using ⟨by simpa using hnot, hnd⟩, ?_, ?_, ?_⟩
    · intro c' hc'
      rcases List.mem_cons.1 hc' with rfl | hc'
      · exact ⟨hid, hfresh, by rw [hout _ hnot]; simp⟩
      · obtain ⟨h1, h2, h3⟩ := hin c' hc'
        refine ⟨h1, ?_, h3⟩
        rw [ExtTreeMap.getElem?_insert] at h2
        split at h2
        · simp at h2
        · exact h2
    · intro k hk
      simp only [List.map_cons, List.mem_cons, not_or] at hk
      rw [hout k hk.2, ExtTreeMap.getElem?_insert, if_neg]
      simpa using fun he : c.id = k => hk.1 he.symm
    · have hnc : c.id ∉ tasks := by
        rw [ExtTreeMap.mem_iff_isSome_getElem?, hfresh]; simp
      rw [hsize, ExtTreeMap.size_insert, if_neg (fun hc => hnc (ExtTreeMap.mem_iff_contains.2 hc)),
        List.length_cons]
      omega

theorem insertWave_course {wave : Nat} {cs : List AdmissionCandidate}
    {tasks tasks' : StringMap TaskRuntime} (h : insertWave wave cs tasks = .ok tasks') :
    (fun k => tasks'[k]?.map (·.mark)) = fun k =>
      if k ∈ cs.map (·.id) then some ⟨.capturing, none⟩ else tasks[k]?.map (·.mark) := by
  obtain ⟨-, hin, hout, -⟩ := insertWave_spec h
  funext k
  split
  · rename_i hk
    obtain ⟨c, hc, rfl⟩ := List.mem_map.1 hk
    rw [(hin c hc).2.2]
    rfl
  · rename_i hk
    rw [hout k hk]

/-- The planned ids and the candidates they select are the same wave. -/
theorem selected_length {candidates : List AdmissionCandidate} {ids : List String}
    (hsub : ids.Sublist (candidates.map (·.id)))
    (hnd : ((candidates.filter fun c => ids.contains c.id).map (·.id)).Nodup) :
    (candidates.filter fun c => ids.contains c.id).length = ids.length := by
  have hmap : (candidates.filter fun c => ids.contains c.id).map (·.id) =
      (candidates.map (·.id)).filter fun id => ids.contains id := by
    rw [List.filter_map]; rfl
  have hself : ids.filter (fun id => ids.contains id) = ids :=
    List.filter_eq_self.2 fun id hid => by simpa using hid
  have hsub' : ids.Sublist ((candidates.filter fun c => ids.contains c.id).map (·.id)) := by
    rw [hmap]
    have := hsub.filter fun id => ids.contains id
    rwa [hself] at this
  have hle : ((candidates.filter fun c => ids.contains c.id).map (·.id)).length ≤ ids.length := by
    refine (List.Nodup.subperm hnd ?_).length_le
    intro id hid
    obtain ⟨c, hc, rfl⟩ := List.mem_map.1 hid
    simpa using (List.mem_filter.1 hc).2
  have := hsub'.length_le
  simp only [List.length_map] at this hle
  omega

/-- The state after a wave of the selected candidates, before the gate is asked again. -/
def withWave (p : Processor) (tasks : StringMap TaskRuntime) (b : CohortRuntime) (n : Nat) : Processor :=
  (p.withTasks tasks).withBatch (some
    { b with
      admittedTotal := satAdd b.admittedTotal (n % (u32Max + 1))
      wave := satAdd b.wave 1 })

theorem satAdd_wave {a n size : Nat} (hfit : a + n ≤ size) (hsize : size < 4294967296) :
    satAdd a (n % (u32Max + 1)) = a + n := by
  have hmod : n % (u32Max + 1) = n := Nat.mod_eq_of_lt (by unfold u32Max; omega)
  rw [hmod]; unfold satAdd u32Max; omega

theorem wave_refines {candidates selected : List AdmissionCandidate} {now : Nat} {b : CohortRuntime}
    {tasks : StringMap TaskRuntime} (hs : Sound p) (hp : p.state.phase = .rolling)
    (hb : p.state.batch = some b) (hopen : b.admissionClosed = none)
    (hdomain : ∀ c ∈ selected, isConflictDomain c.conflictDomain = true)
    (htasks : insertWave b.wave selected p.state.tasks = .ok tasks)
    (hfit : b.admittedTotal + selected.length ≤ p.config.cohortSize.toNat) :
    p.Refines (.admitWave candidates now)
      ((p.withWave tasks b selected.length).closeForBudgetIfNeeded now) := by
  obtain ⟨hnd, hin, hout, hsize⟩ := insertWave_spec htasks
  have hadd := satAdd_wave hfit p.config.cohortSize.toNat_lt
  have hbok := hs.batch b hb
  have hsound : Sound (p.withWave tasks b selected.length) := by
    refine sound_withBatch (sound_withTasks hs fun id t ht => ?_) ?_
    · by_cases hk : id ∈ selected.map (·.id)
      · obtain ⟨c, hc, rfl⟩ := List.mem_map.1 hk
        obtain ⟨hval, -, hget⟩ := hin c hc
        rw [hget] at ht
        obtain rfl := Option.some.inj ht
        exact ⟨rfl, hval, hbok.wave, conflictDomain_not_blank (hdomain c hc),
          by simp [TaskRuntime.new], by simp [TaskRuntime.new], rfl⟩
      · rw [hout id hk] at ht; exact hs.tasks id t ht
    · rintro b' hb'
      obtain rfl := Option.some.inj hb'
      refine ⟨hbok.id, hbok.base, ?_, hbok.budget, hbok.tokens, hbok.strict, hbok.events⟩
      have := hbok.wave
      simp only [satAdd, u32Max]; omega
  have hg := gated hsound now
  refine ⟨⟨hg.keeps.sound, hg.keeps.config⟩, ?_⟩
  rw [hg.course]
  have hcourse : (p.withWave tasks b selected.length).course =
      { p.course with
        batch := some (b.erased.withWave selected.length)
        size := p.course.size + selected.length
        task := fun k => if k ∈ selected.map (·.id) then some ⟨.capturing, none⟩
          else p.course.task k } := by
    simp only [withWave, course, withBatch, withTasks, insertWave_course htasks, hsize, hadd,
      Option.map_some]
    rfl
  have hshift : Shift p.config p.course (.admitWave candidates now) _ :=
    .admitWave hp (show p.course.batch = some b.erased by simp [course, hb]) (by simpa [CohortRuntime.erased] using hopen) hnd
      (fun id hid => by
        obtain ⟨c, hc, rfl⟩ := List.mem_map.1 hid
        simp [course, (hin c hc).2.1])
      (by simpa [CohortRuntime.erased] using hfit)
      (by
        have h := hg.closes
        rw [hcourse] at h
        simpa using h)
  rw [hcourse]
  simpa using hshift

theorem admitWave_refines {candidates : List AdmissionCandidate} {now : Nat} (hs : Sound p)
    (h : p.admitWave candidates now = .ok (q, effects)) :
    p.Refines (.admitWave candidates now) q := by
  simp only [admitWave, bind_eq_ok, exists_const, requirePhase_eq_ok, checkAll_eq_ok,
    validateConflictDomain, require_eq_ok, orError_eq_ok] at h
  obtain ⟨hp, hdomain, b, hb, h⟩ := h
  have hg := gated hs now
  generalize p.closeForBudgetIfNeeded now = r at hg h hb
  have hr := hg.keeps.sound
  split at h
  · -- admission was closed before this wave
    rename_i hclosed
    obtain ⟨hk, hc⟩ := afterAdmissionClosed_closed hr h
    refine ⟨⟨hk.sound, hk.config.trans hg.keeps.config⟩, .closeWave hp hg.closes ?_ ?_⟩
    · simpa [course, hb, CohortRuntime.erased] using hclosed
    · rw [hg.course] at hc; exact hc
  rename_i hopen
  have hopen : b.admissionClosed = none := by simpa using hopen
  obtain rfl : r = p := hg.same fun b' hb' => by
    rw [hb] at hb'; obtain rfl := Option.some.inj hb'; exact hopen
  split at h
  · -- a wave was planned
    rename_i ids hplan
    obtain ⟨hsub, hcap, hne⟩ := planAdmission_admitted hplan
    simp only [bind_eq_ok, Except.ok.injEq, Prod.mk.injEq] at h
    obtain ⟨tasks, htasks, rfl, -⟩ := h
    have hids : ids.Sublist (candidates.map (·.id)) := by
      simpa [List.map_map, Function.comp_def, resolverCandidate] using hsub
    have hlen := selected_length hids (insertWave_spec htasks).1
    have hfit : b.admittedTotal + ids.length ≤ r.config.cohortSize.toNat := by
      have := List.length_pos_iff.2 hne
      have := Nat.le_trans hcap (Nat.min_le_right _ _)
      omega
    rw [← hlen] at hfit ⊢
    exact wave_refines hs hp hb hopen (fun c hc => hdomain c (List.mem_of_mem_filter hc)) htasks hfit
  · -- nothing was planned
    rename_i reason hplan
    split at h
    · rename_i close hclose
      obtain ⟨hk, hc⟩ := afterAdmissionClosed_closed (sound_closeAdmission hs close) h
      refine ⟨⟨hk.sound, hk.config⟩, ?_⟩
      rw [course_closeAdmission] at hc
      refine .closeWave hp ?_ ?_ hc
      · simp only [course, hb, Option.map_some]
        exact .close hopen
      · simp [course, hb]
    · obtain ⟨rfl, -⟩ := Prod.mk.inj (Except.ok.inj h)
      exact refines_stay hs rfl

theorem advance_refines {now : Nat} (hs : Sound p)
    (h : p.advance now = .ok (q, effects)) : p.Refines (.advance now) q := by
  simp only [advance, bind_eq_ok, exists_const, requirePhase_eq_ok] at h
  obtain ⟨hp, h⟩ := h
  have hg := gated hs now
  generalize p.closeForBudgetIfNeeded now = r at hg h
  split at h
  · rename_i hopen
    obtain ⟨rfl, -⟩ := Prod.mk.inj (Except.ok.inj h)
    obtain rfl : r = p := hg.same fun b hb => by simpa [hb] using hopen
    exact refines_stay hs rfl
  · rename_i hclosed
    obtain ⟨hk, hc⟩ := afterAdmissionClosed_closed hg.keeps.sound h
    refine ⟨⟨hk.sound, hk.config.trans hg.keeps.config⟩, .advance hp hg.closes ?_ ?_⟩
    · cases hb : r.state.batch with
      | none => simp [course, hb]
      | some b =>
        have hclosed : b.admissionClosed ≠ none := by simpa [hb] using hclosed
        simp [course, hb, CohortRuntime.erased, Option.isSome_iff_ne_none, hclosed]
    · rw [hg.course] at hc; exact hc

end Admission

section Budget

/-- Escalating the listed tasks, in the course. -/
theorem escalateEach_active (hs : Sound p) {reason : String}
    (h : p.escalateEach ((p.taskList.filter (·.phase.isActive)).map (·.id)) reason = .ok (q, effects)) :
    p.Keeps q ∧ q.course = p.course.escalateActive ∧ q.state.batch = p.state.batch := by
  simp only [escalateEach, bind_eq_ok, Except.ok.injEq, Prod.mk.injEq] at h
  obtain ⟨tasks, htasks, rfl, -⟩ := h
  have hnd : ((p.taskList.filter (·.phase.isActive)).map (·.id)).Nodup :=
    nodup_keyed (fun k t ht => (hs.tasks k t ht).key) _
  obtain ⟨hin, hout⟩ := updateEach_getElem? hnd htasks
  have hmem : ∀ (k : String) (t : TaskRuntime), p.state.tasks[k]? = some t →
      (k ∈ (p.taskList.filter (·.phase.isActive)).map (·.id) ↔ t.phase.isActive = true) := by
    intro k t ht
    simp only [List.mem_map, List.mem_filter, taskList, mem_vals]
    constructor
    · rintro ⟨u, ⟨⟨j, hj⟩, hact⟩, hid⟩
      obtain rfl : j = k := (hs.tasks j u hj).key.symm.trans hid
      rw [ht] at hj
      obtain rfl := Option.some.inj hj
      exact hact
    · intro hact
      exact ⟨t, ⟨⟨k, ht⟩, hact⟩, (hs.tasks k t ht).key⟩
  refine ⟨⟨sound_withTasks hs fun id t ht => ?_, rfl⟩, ?_, rfl⟩
  · by_cases hk : id ∈ (p.taskList.filter (·.phase.isActive)).map (·.id)
    · obtain ⟨u, u', hu, hf, hu'⟩ := hin id hk
      obtain rfl := Except.ok.inj hf
      rw [hu'] at ht
      obtain rfl := Option.some.inj ht
      exact taskOk_escalated (hs.tasks id u hu)
    · rw [hout id hk] at ht; exact hs.tasks id t ht
  · have htask : (fun k => tasks[k]?.map (·.mark)) = p.course.escalateActive.task := by
      funext k
      simp only [Course.escalateActive, course, Option.map_map]
      cases ht : p.state.tasks[k]? with
      | none =>
        rw [hout k, ht]; · rfl
        intro hk
        obtain ⟨u, -, hu, -⟩ := hin k hk
        simp [hu] at ht
      | some t =>
        by_cases hact : t.phase.isActive = true
        · obtain ⟨u, u', hu, hf, hu'⟩ := hin k ((hmem k t ht).2 hact)
          rw [ht] at hu
          obtain rfl := Option.some.inj hu
          obtain rfl := Except.ok.inj hf
          simp [hu', TaskRuntime.mark, hact]
        · rw [hout k (fun hk => hact ((hmem k t ht).1 hk)), ht]
          simp [TaskRuntime.mark, hact]
    simp only [course, withTasks, htask, updateEach_size htasks]
    rfl

theorem haltFor_refines {cmd : ProcessorCommand} {close : CloseReason} {reason : String}
    {b : CohortRuntime} (hs : Sound p) (hb : p.state.batch = some b)
    (hcmd : exhausts p.config p.course.batch cmd = true)
    (h : p.haltFor close reason = .ok (q, effects)) : p.Refines cmd q := by
  simp only [haltFor, bind_eq_ok] at h
  obtain ⟨⟨r, escalations⟩, hr, ⟨s, more⟩, hs', h⟩ := h
  obtain ⟨rfl, -⟩ := Prod.mk.inj (Except.ok.inj h)
  simp only at hs'
  obtain ⟨m, hm, hmsound, hmconfig, hmcourse⟩ : ∃ m : Processor,
      m = (if p.state.batch.any (·.admissionClosed.isNone) = true then p.closeAdmission close else p) ∧
        Sound m ∧ m.config = p.config ∧
        m.course = { p.course with batch := some (closedFor close b.erased) } := by
    refine ⟨_, rfl, ?_⟩
    split
    · rename_i hopen
      refine ⟨sound_closeAdmission hs close, rfl, ?_⟩
      rw [course_closeAdmission]
      have : b.admissionClosed.isNone = true := by simpa [hb] using hopen
      simp [course, hb, closedFor, CohortRuntime.erased, this]
    · rename_i hopen
      refine ⟨hs, rfl, ?_⟩
      have : ¬ b.admissionClosed.isNone = true := by simpa [hb] using hopen
      simp [course, hb, closedFor, CohortRuntime.erased, this]
  rw [← hm] at hr
  obtain ⟨hk, hcourse, -⟩ := escalateEach_active hmsound hr
  obtain ⟨hk', hclosed⟩ := afterAdmissionClosed_closed hk.sound hs'
  refine ⟨⟨hk'.sound, by rw [hk'.config, hk.config, hmconfig]⟩, ?_⟩
  rw [hcourse, hmcourse] at hclosed
  exact .halt (b := b.erased) (by simp [course, hb]) hcmd hclosed

theorem cohortBudgetChecked_refines {call : ModelCall} {now : Nat} (hs : Sound p)
    (h : p.cohortBudgetChecked call now = .ok (q, effects)) :
    p.Refines (.cohortBudgetChecked call now) q := by
  simp only [cohortBudgetChecked, bind_eq_ok, exists_const, orError_eq_ok, require_eq_ok] at h
  obtain ⟨limit, hlimit, b, hb, -, h⟩ := h
  split at h
  · rename_i hex
    exact haltFor_refines hs hb (by simpa [exhausts, hlimit, course, hb, CohortRuntime.erased] using hex) h
  · obtain ⟨rfl, -⟩ := Prod.mk.inj (Except.ok.inj h)
    exact refines_stay hs rfl

theorem sound_tokens (hs : Sound p) {b : CohortRuntime} (hb : p.state.batch = some b)
    (tokens : Option Nat) :
    Sound (p.withBatch (some { b with tokenBudgetActualTokens := tokens })) := by
  refine sound_withBatch hs fun b' hb' => ?_
  obtain rfl := Option.some.inj hb'
  have h := hs.batch b hb
  exact ⟨h.id, h.base, h.wave, h.budget, h.tokens, h.strict, h.events⟩

theorem course_tokens {b : CohortRuntime} (hb : p.state.batch = some b) (tokens : Option Nat) :
    (p.withBatch (some { b with tokenBudgetActualTokens := tokens })).course = p.course := by
  simp [course, withBatch, hb, CohortRuntime.erased]

theorem tokenBudgetChecked_refines {call : ModelCall} {observation : TokenBudgetObservation}
    (hs : Sound p) (h : p.tokenBudgetChecked call observation = .ok (q, effects)) :
    p.Refines (.tokenBudgetChecked call observation) q := by
  simp only [tokenBudgetChecked, bind_eq_ok, exists_const, orError_eq_ok, require_eq_ok] at h
  obtain ⟨limit, hlimit, b, hb, -, h⟩ := h
  cases observation with
  | actual tokens =>
    simp only at h
    refine .of_same_course (course_tokens hb (some tokens)) rfl ?_
    split at h
    · obtain ⟨rfl, -⟩ := Prod.mk.inj (Except.ok.inj h)
      exact refines_stay (sound_tokens hs hb _) rfl
    · rename_i hex
      refine haltFor_refines (sound_tokens hs hb _) rfl ?_ h
      simpa [exhausts, hlimit, withBatch] using hex
  | unavailable =>
    simp only at h
    refine .of_same_course (course_tokens hb none) rfl ?_
    exact haltFor_refines (sound_tokens hs hb _) rfl rfl h

end Budget

theorem pause_refines (hs : Sound p) (h : p.pause = .ok (q, effects)) : p.Refines .pause q := by
  unfold pause at h
  split at h <;> obtain ⟨rfl, -⟩ := Prod.mk.inj (Except.ok.inj h)
  · exact refines_stay hs rfl
  · rename_i hp
    exact ⟨⟨hs, rfl⟩, .pause hp⟩

/-- Resuming phase 5 keeps the course, or stops when the review cycles are used up. -/
theorem publishingResumeEffect_spec {effect : Effect} (hs : Sound p)
    (h : p.publishingResumeEffect = .ok (q, effect)) :
    p.Keeps q ∧ (q.course = p.course ∨ q.course = { p.course with phase := .blocked }) := by
  unfold publishingResumeEffect at h
  simp only at h
  split at h
  · simp only [bind_eq_ok, Except.ok.injEq, Prod.mk.injEq] at h
    obtain ⟨_, _, rfl, -⟩ := h
    exact ⟨⟨hs, rfl⟩, .inl rfl⟩
  split at h
  · obtain ⟨rfl, -⟩ := Prod.mk.inj (Except.ok.inj h)
    exact ⟨⟨hs, rfl⟩, .inl rfl⟩
  split at h
  · simp only [bind_eq_ok, Except.ok.injEq, Prod.mk.injEq] at h
    obtain ⟨_, _, rfl, -⟩ := h
    exact ⟨⟨hs, rfl⟩, .inl rfl⟩
  split at h
  · obtain ⟨rfl, -⟩ := Prod.mk.inj (Except.ok.inj h)
    exact ⟨⟨hs, rfl⟩, .inr rfl⟩
  · obtain ⟨rfl, -⟩ := Prod.mk.inj (Except.ok.inj h)
    exact ⟨⟨hs, rfl⟩, .inl rfl⟩

theorem resume_refines (hs : Sound p) (h : p.resume = .ok (q, effects)) : p.Refines .resume q := by
  simp only [resume, bind_eq_ok, exists_const, require_eq_ok] at h
  obtain ⟨hp, h⟩ := h
  have hstay : p.state.pausedFrom.getD .recovery ≠ .joining → Shift p.config p.course .resume
      { p.course with pausedFrom := none, phase := p.state.pausedFrom.getD .recovery } :=
    .resumeStay hp rfl
  split at h
  case h_2 hj =>
    rw [hj] at h
    obtain ⟨hk, hn⟩ := nextMergeOrReview_next (p := { p with state :=
      { p.state with pausedFrom := none, phase := .joining } }) hs h
    have hfrom : p.state.pausedFrom = some .joining := by
      cases hf : p.state.pausedFrom with
      | none => simp [hf] at hj
      | some ph => simpa [hf] using hj
    exact ⟨⟨hk.sound, hk.config⟩, .resumeJoin hp hfrom hn⟩
  case h_3 hj =>
    rw [hj] at h
    simp only [bind_eq_ok] at h
    obtain ⟨⟨r, effect⟩, hr, h⟩ := h
    obtain ⟨rfl, -⟩ := Prod.mk.inj (Except.ok.inj h)
    obtain ⟨hk, hc⟩ := publishingResumeEffect_spec (p := { p with state :=
      { p.state with pausedFrom := none, phase := .publishing } }) hs hr
    have hfrom : p.state.pausedFrom = some .publishing := by
      cases hf : p.state.pausedFrom with
      | none => simp [hf] at hj
      | some ph => simpa [hf] using hj
    refine ⟨⟨hk.sound, hk.config⟩, ?_⟩
    rcases hc with hc | hc
    · rw [hc]
      rw [hj] at hstay
      exact hstay (by simp)
    · rw [hc]; exact .resumeHold hp hfrom
  all_goals
    rename_i hj
    obtain ⟨rfl, -⟩ := Prod.mk.inj (Except.ok.inj h)
    exact ⟨⟨hs, rfl⟩, hstay (by rw [hj]; simp)⟩

end Processor

end Orchestrail
