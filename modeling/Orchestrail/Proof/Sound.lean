import Orchestrail.Proof.Course

/-!
# Well-formed processors

`Sound` is the validity of the stored data: every task under its own id with valid coordinates, a
valid cohort carrying the configured safety snapshot, valid integration heads. Every accepted
command keeps it; the boundaries shared by the transitions (`nextMergeOrReview`,
`afterAdmissionClosed`) are related here to their abstract counterparts `Next` and `Closed`.
-/

namespace Orchestrail

open Std Table

def TaskRuntime.mark (t : TaskRuntime) : Mark := ⟨t.phase, t.reviewSha⟩

/-- The batch without the last token observation, which no transition reads. -/
def CohortRuntime.erased (b : CohortRuntime) : CohortRuntime := { b with tokenBudgetActualTokens := none }

/-- The course of a processor. -/
def Processor.course (p : Processor) : Course :=
  { phase := p.state.phase
    pausedFrom := p.state.pausedFrom
    target := p.recoveryTarget
    batch := p.state.batch.map (·.erased)
    task := fun k => p.state.tasks[k]?.map (·.mark)
    size := p.state.tasks.size
    prepared := p.state.integration.workspacePrepared
    merged := p.state.integration.mergedTasks
    resolving := p.state.integration.pendingMergeResolution.map (·.taskId)
    head := p.state.integration.integrationHead
    reviewed := p.state.integration.reviewSha
    verified := p.state.integration.verificationHead
    publishedHead := p.state.integration.publishedHead
    pushed := p.state.integration.publicationPushed
    ci := p.state.integration.ciDisposition
    reanchor := p.state.integration.publicationReanchorReason.isSome
    journaled := p.state.integration.cleanupJournaled
    gate := p.state.integration.archiveCiGate
    refreshedOpen := p.state.integration.dependencyGraphRefreshedOpen
    refreshedPost := p.state.integration.dependencyGraphRefreshedPostArchive }

/-- A task entry is valid and stored under its own id. -/
structure TaskOk (id : String) (t : TaskRuntime) : Prop where
  key : t.id = id
  valid : isTaskId id = true
  wave : t.wave ≠ 0
  domain : Text.isBlank t.conflictDomain = false
  previous : ∀ r ∈ t.previousReviewSha, isRef r = true
  review : ∀ r ∈ t.reviewSha, isRef r = true
  native : t.importedRecoveryIntent = none

structure BatchOk (config : ProcessorConfig) (b : CohortRuntime) : Prop where
  id : isBatchId b.id = true
  base : isRef b.base = true
  wave : b.wave ≠ 0
  budget : b.cohortBudgetSecs = config.cohortBudgetSecs
  tokens : b.cohortTokenBudget = config.cohortTokenBudget
  strict : b.cohortTokenBudgetStrict = config.cohortTokenBudgetStrict
  events : b.eventsOutboxEnabled = config.eventsOutboxEnabled

structure CurationOk (id : String) (k : PendingKnowledgeCuration) : Prop where
  id : isBatchId id = true
  base : isRef k.base = true
  head : isRef k.publishedHead = true
  merged : ∀ t ∈ k.mergedTasks, isTaskId t = true
  quarantined : ∀ t ∈ k.quarantinedTasks, isTaskId t = true
  escalated : ∀ t ∈ k.escalatedTasks, isTaskId t = true

/-- The parts of an integration that validity depends on. -/
structure IntegrationParts where
  restore : Bool
  heads : List (Option String)
  pre : Option String
  curations : StringMap PendingKnowledgeCuration

def IntegrationRuntime.parts (i : IntegrationRuntime) : IntegrationParts :=
  { restore := i.importedWorkspaceRestorePending
    heads := [i.integrationHead, i.reviewSha, i.verificationHead, i.publishedHead]
    pre := i.pendingMergeResolution.map (·.preMergeHead)
    curations := i.pendingKnowledgeCurations }

structure PartsOk (i : IntegrationParts) : Prop where
  restore : i.restore = false
  heads : ∀ h ∈ i.heads, ∀ r ∈ h, isRef r = true
  pre : ∀ r ∈ i.pre, isRef r = true
  curations : ∀ (id : String) (k : PendingKnowledgeCuration), i.curations[id]? = some k → CurationOk id k

structure SoundData (config : ProcessorConfig) (version : Nat) (tasks : StringMap TaskRuntime)
    (batch : Option CohortRuntime) (integration : IntegrationParts) : Prop where
  version : version = processorStateVersion
  tasks : ∀ (id : String) (t : TaskRuntime), tasks[id]? = some t → TaskOk id t
  batch : ∀ b ∈ batch, BatchOk config b
  integration : PartsOk integration

/-- **The stored data is valid.** -/
def Sound (p : Processor) : Prop :=
  SoundData p.config p.state.schemaVersion p.state.tasks p.state.batch p.state.integration.parts

namespace Processor

variable {p : Processor}

theorem sound_withTasks (h : Sound p) {tasks : StringMap TaskRuntime}
    (ht : ∀ (id : String) (t : TaskRuntime), tasks[id]? = some t → TaskOk id t) :
    Sound (p.withTasks tasks) :=
  ⟨h.version, ht, h.batch, h.integration⟩

theorem sound_withTask (h : Sound p) {id : String} {t : TaskRuntime} (ht : TaskOk id t) :
    Sound (p.withTask id t) := by
  refine sound_withTasks h fun k u hu => ?_
  rw [ExtTreeMap.getElem?_insert] at hu
  by_cases hk : id = k
  · subst hk
    obtain rfl : t = u := by simpa using hu
    exact ht
  · exact h.tasks k u (by simpa [hk] using hu)

theorem sound_withIntegration (h : Sound p) {i : IntegrationRuntime} (hi : PartsOk i.parts) :
    Sound (p.withIntegration i) :=
  ⟨h.version, h.tasks, h.batch, hi⟩

theorem sound_withBatch (h : Sound p) {batch : Option CohortRuntime}
    (hb : ∀ b ∈ batch, BatchOk p.config b) : Sound (p.withBatch batch) :=
  ⟨h.version, h.tasks, hb, h.integration⟩

theorem sound_withPhase (h : Sound p) (ph : Phase) : Sound (p.withPhase ph) := h

theorem sound_blocked (h : Sound p) (reason : String) : Sound (p.blocked reason) := h

@[simp] theorem course_withPhase (ph : Phase) :
    (p.withPhase ph).course = { p.course with phase := ph } := rfl

@[simp] theorem course_blocked (reason : String) :
    (p.blocked reason).course = { p.course with phase := .blocked } := rfl

theorem course_withTask {id : String} {t u : TaskRuntime} (hu : p.state.tasks[id]? = some u) :
    (p.withTask id t).course = p.course.setTask id t.mark := by
  have hsize : (p.state.tasks.insert id t).size = p.state.tasks.size := by
    have hm : id ∈ p.state.tasks := by
      rw [ExtTreeMap.mem_iff_isSome_getElem?, hu]; rfl
    rw [ExtTreeMap.size_insert, if_pos (ExtTreeMap.mem_iff_contains.1 hm)]
  have htask : (fun k => (p.state.tasks.insert id t)[k]?.map (·.mark)) =
      fun k => if id = k then some t.mark else p.state.tasks[k]?.map (·.mark) := by
    funext k
    rw [ExtTreeMap.getElem?_insert]
    by_cases hk : id = k <;> simp [hk]
  simp only [course, Course.setTask, withTask, withTasks, htask, hsize]

theorem task_eq {id : String} {t : TaskRuntime} (h : p.state.tasks[id]? = some t) :
    p.course.task id = some ⟨t.phase, t.reviewSha⟩ := by
  simp [course, h, TaskRuntime.mark]

theorem in_iff {id : String} {ph : TaskPhase} :
    p.course.In id ph ↔ ∃ t, p.state.tasks[id]? = some t ∧ t.phase = ph := by
  simp only [Course.In, course, Option.map_map, Option.map_eq_some_iff]
  rfl

theorem no_iff {kind : TaskPhase → Bool} :
    p.course.No kind ↔ ∀ (id : String) (t : TaskRuntime), p.state.tasks[id]? = some t → kind t.phase = false := by
  simp only [Course.No, course, Option.map_eq_some_iff]
  constructor
  · intro h id t ht; exact h id _ ⟨t, ht, rfl⟩
  · rintro h id m ⟨t, ht, rfl⟩; exact h id t ht

theorem anyActive_eq_false : p.anyActive = false ↔ p.course.No (·.isActive) := by
  rw [no_iff]; exact any_vals_eq_false

theorem mem_readyToMerge {t : TaskRuntime} :
    t ∈ p.tasksReadyToMerge ↔ (∃ id : String, p.state.tasks[id]? = some t) ∧ t.phase = .ready := by
  simp [tasksReadyToMerge, taskList, mem_vals]

/-- Some task is in the phase. -/
theorem any_phase {ph : TaskPhase} :
    p.taskList.any (·.phase = ph) = true ↔ ∃ id, p.course.In id ph := by
  simp only [taskList, any_vals, in_iff, decide_eq_true_eq]

theorem anyActive_eq_true :
    p.anyActive = true ↔ ∃ id m, p.course.task id = some m ∧ m.phase.isActive = true := by
  rw [anyActive, taskList, any_vals]
  constructor
  · rintro ⟨id, t, ht, hact⟩; exact ⟨id, _, task_eq ht, hact⟩
  · rintro ⟨id, m, hm, hact⟩
    obtain ⟨t, ht, rfl⟩ := Option.map_eq_some_iff.1 hm
    exact ⟨id, t, ht, hact⟩

/-- Every active task has its workspace in the set. -/
theorem all_present (hs : Sound p) {ws : StringSet} :
    (p.taskList.all fun task => !task.phase.isActive || ws.contains task.id) = true ↔
      ∀ id m, p.course.task id = some m → m.phase.isActive = true → id ∈ ws := by
  simp only [List.all_eq_true, taskList, mem_vals, Bool.or_eq_true, Bool.not_eq_true',
    forall_exists_index]
  constructor
  · intro h id m hm hact
    obtain ⟨t, ht, rfl⟩ := Option.map_eq_some_iff.1 hm
    have hin := (h t id ht).resolve_left (by simpa [TaskRuntime.mark] using hact)
    rwa [(hs.tasks id t ht).key, ExtTreeSet.contains_iff_mem] at hin
  · intro h t id ht
    by_cases hact : t.phase.isActive = true
    · right
      rw [(hs.tasks id t ht).key, ExtTreeSet.contains_iff_mem]
      exact h id _ (task_eq ht) hact
    · exact .inl (by simpa using hact)

theorem readyToMerge_eq_nil : p.tasksReadyToMerge = [] ↔ p.course.No (· = .ready) := by
  rw [no_iff, List.eq_nil_iff_forall_not_mem]
  simp only [mem_readyToMerge, not_and, forall_exists_index, decide_eq_false_iff_not]
  exact ⟨fun h id t => h t id, fun h t id => h id t⟩

theorem exists_ready (h : p.tasksReadyToMerge ≠ []) : ∃ id, p.course.In id .ready := by
  obtain ⟨t, ht⟩ := List.exists_mem_of_ne_nil _ h
  obtain ⟨⟨id, hid⟩, hp⟩ := mem_readyToMerge.1 ht
  exact ⟨id, in_iff.2 ⟨t, hid, hp⟩⟩

/-- What a function may do besides moving the course: the data stays valid, the configuration is
kept. -/
structure Keeps (p q : Processor) : Prop where
  sound : Sound q
  config : q.config = p.config

theorem nextMergeOrReview_next {q : Processor} {effects : List Effect} (hs : Sound p)
    (h : p.nextMergeOrReview = .ok (q, effects)) : p.Keeps q ∧ Next p.course q.course := by
  unfold nextMergeOrReview at h
  split at h
  · rename_i hp
    simp only [bind_eq_ok, Except.ok.injEq, Prod.mk.injEq] at h
    obtain ⟨_, _, rfl, _⟩ := h
    exact ⟨⟨hs, rfl⟩, .unprepared (by simpa [course] using hp)⟩
  rename_i hp
  have hp : p.course.prepared = true := by simpa [course] using hp
  split at h
  · rename_i hr
    simp only [dispatchIntegration, Except.ok.injEq, Prod.mk.injEq] at h
    obtain ⟨rfl, _⟩ := h
    exact ⟨⟨hs, rfl⟩, .resolve hp (by simpa [course] using hr)⟩
  rename_i hr
  have hr : p.course.resolving = none := by simpa [course] using hr
  split at h
  · rename_i t ts ht
    simp only [Except.ok.injEq, Prod.mk.injEq] at h
    obtain ⟨rfl, _⟩ := h
    obtain ⟨id, hid⟩ := exists_ready (p := p) (by simp [ht])
    exact ⟨⟨hs, rfl⟩, .merge hp hr hid⟩
  rename_i ht
  have hn := readyToMerge_eq_nil.1 ht
  split at h
  · rename_i hm
    simp only [Except.ok.injEq, Prod.mk.injEq] at h
    obtain ⟨rfl, _⟩ := h
    exact ⟨⟨hs, rfl⟩, .clean hp hr hn hm⟩
  · rename_i hm
    simp only [dispatchIntegration, Except.ok.injEq, Prod.mk.injEq] at h
    obtain ⟨rfl, _⟩ := h
    exact ⟨⟨hs, rfl⟩, .review hp hr hn (by simpa [course] using hm)⟩

theorem afterAdmissionClosed_closed {q : Processor} {effects : List Effect} (hs : Sound p)
    (h : p.afterAdmissionClosed = .ok (q, effects)) : p.Keeps q ∧ Closed p.course q.course := by
  unfold afterAdmissionClosed at h
  split at h
  · rename_i ha
    simp only [Except.ok.injEq, Prod.mk.injEq] at h
    obtain ⟨rfl, _⟩ := h
    obtain ⟨id, t, ht, hact⟩ := any_vals.1 ha
    exact ⟨⟨hs, rfl⟩, .wait (task_eq ht) hact⟩
  rename_i ha
  have ha := anyActive_eq_false.1 (by simpa using ha)
  split at h
  · rename_i hr
    simp only [bind_eq_ok, Except.ok.injEq, Prod.mk.injEq] at h
    obtain ⟨_, _, rfl, _⟩ := h
    obtain ⟨id, hid⟩ := exists_ready hr
    exact ⟨⟨hs, rfl⟩, .join ha hid⟩
  · rename_i hr
    simp only [Except.ok.injEq, Prod.mk.injEq] at h
    obtain ⟨rfl, _⟩ := h
    exact ⟨⟨hs, rfl⟩, .clean ha (readyToMerge_eq_nil.1 (by simpa using hr))⟩

end Processor

end Orchestrail
