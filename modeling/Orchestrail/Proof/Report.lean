import Orchestrail.Lib.Outcome
import Orchestrail.Proof.RefineRecovery

/-!
# What a turn reports

The course forgets the data of a task and the effects of a turn. `Report` says what a transition does
with both.

* `dispatch_report`: every transition but the admission of a wave makes such a report.
-/

namespace Orchestrail

open Std Table Outcome

/-- How far a task is through its life. -/
def TaskPhase.rank : TaskPhase → Nat
  | .capturing => 0
  | .implementing | .fixing => 1
  | .committing => 2
  | .reviewing => 3
  | .ready => 4
  | .resolvingMerge => 5
  | .merged => 6
  | .conflict | .escalated => 7
  | .published => 8
  | .done => 9

theorem TaskPhase.active_iff_rank {ph : TaskPhase} : ph.isActive = true ↔ ph.rank < 4 := by
  cases ph <;> decide

/-- One turn of one task: it goes onward, or a review ends, or a re-anchor reopens it. A review is
only due below the cycle limit. -/
inductive Turned (limit : Nat) (t u : TaskRuntime) : Prop
  | still : u.phase = t.phase → u.reviewCycles = t.reviewCycles → Turned limit t u
  | onward : t.phase.rank < u.phase.rank → u.reviewCycles = t.reviewCycles →
      (u.phase = .reviewing → u.reviewCycles < limit) → Turned limit t u
  | review : t.phase = .reviewing → u.reviewCycles = satAdd t.reviewCycles 1 →
      u.phase = .fixing ∨ u.phase = .reviewing ∨ u.phase = .ready ∨ u.phase = .escalated →
      (u.phase = .reviewing → u.reviewCycles < limit) → Turned limit t u
  | reopened : t.phase = .merged → u.phase = .ready → u.reviewCycles = t.reviewCycles →
      Turned limit t u

structure Evolves (limit : Nat) (t u : TaskRuntime) : Prop where
  id : u.id = t.id
  domain : u.conflictDomain = t.conflictDomain
  turned : Turned limit t u

/-- Every task of the later table was in the earlier one. -/
def Frame (limit : Nat) (m m' : StringMap TaskRuntime) : Prop :=
  ∀ (id : String) (u : TaskRuntime), m'[id]? = some u →
    ∃ t, m[id]? = some t ∧ Evolves limit t u

section Frame

variable {limit : Nat} {t u v : TaskRuntime} {m m' : StringMap TaskRuntime}

theorem Evolves.refl : Evolves limit t t := ⟨rfl, rfl, .still rfl rfl⟩

/-- A step onward to a phase other than a review. -/
theorem Evolves.rise (b : TaskPhase)
    (same : u.id = t.id ∧ u.conflictDomain = t.conflictDomain ∧ u.reviewCycles = t.reviewCycles)
    (hu : u.phase = b) (hrank : t.phase.rank < b.rank) (hb : b ≠ .reviewing) : Evolves limit t u := by
  obtain ⟨hid, hd, hc⟩ := same
  exact ⟨hid, hd, .onward (hu ▸ hrank) hc fun h => absurd (hu.symm.trans h) hb⟩

/-- The end of a review that leads to a phase other than the next review. -/
theorem Evolves.reviewed (ht : t.phase = .reviewing)
    (same : u.id = t.id ∧ u.conflictDomain = t.conflictDomain)
    (hc : u.reviewCycles = satAdd t.reviewCycles 1)
    (hu : u.phase = .fixing ∨ u.phase = .ready ∨ u.phase = .escalated) : Evolves limit t u := by
  refine ⟨same.1, same.2, .review ht hc (hu.imp_right .inr) fun h => ?_⟩
  rcases hu with h' | h' | h' <;> rw [h'] at h <;> cases h

/-- A task may be rewritten before its turn, as long as it does not move. -/
theorem Evolves.of_same (h : Evolves limit u v) (hid : u.id = t.id)
    (hd : u.conflictDomain = t.conflictDomain) (hp : u.phase = t.phase)
    (hc : u.reviewCycles = t.reviewCycles) : Evolves limit t v := by
  refine ⟨h.id.trans hid, h.domain.trans hd, ?_⟩
  cases h.turned with
  | still h1 h2 => exact .still (h1.trans hp) (h2.trans hc)
  | onward h1 h2 h3 => exact .onward (hp ▸ h1) (h2.trans hc) h3
  | review h1 h2 h3 h4 => exact .review (hp ▸ h1) (h2.trans (by rw [hc])) h3 h4
  | reopened h1 h2 h3 => exact .reopened (hp ▸ h1) h2 (h3.trans hc)

theorem Frame.refl : Frame limit m m := fun _ u hu => ⟨u, hu, .refl⟩

theorem Frame.empty : Frame limit m ∅ := by
  intro id u hu
  simp at hu

theorem Frame.insert {id : String} (ht : m[id]? = some t) (h : Evolves limit t u) :
    Frame limit m (m.insert id u) := by
  intro k v hv
  rw [ExtTreeMap.getElem?_insert] at hv
  by_cases hk : id = k
  · subst hk
    obtain rfl : u = v := by simpa using hv
    exact ⟨t, ht, h⟩
  · exact ⟨v, by simpa [hk] using hv, .refl⟩

/-- A turn after a rewrite that moves nothing. -/
theorem Frame.after {id : String} (ht : m[id]? = some t) (hid : u.id = t.id)
    (hd : u.conflictDomain = t.conflictDomain) (hp : u.phase = t.phase)
    (hc : u.reviewCycles = t.reviewCycles) (h : Frame limit (m.insert id u) m') : Frame limit m m' := by
  intro k w hw
  obtain ⟨v, hv, hvw⟩ := h k w hw
  rw [ExtTreeMap.getElem?_insert] at hv
  by_cases hk : id = k
  · subst hk
    obtain rfl : u = v := by simpa using hv
    exact ⟨t, ht, hvw.of_same hid hd hp hc⟩
  · exact ⟨v, by simpa [hk] using hv, hvw⟩

theorem Frame.updateEach {missing : String → ProcessorError}
    {f : String → TaskRuntime → Checked TaskRuntime} {ids : List String} (hnd : ids.Nodup)
    (hf : ∀ (id : String) (t u : TaskRuntime), m[id]? = some t → f id t = .ok u → Evolves limit t u)
    (h : Table.updateEach missing f ids m = .ok m') : Frame limit m m' := by
  obtain ⟨hin, hout⟩ := updateEach_getElem? hnd h
  intro k u hu
  by_cases hk : k ∈ ids
  · obtain ⟨t, u', ht, hfu, hu'⟩ := hin k hk
    obtain rfl : u' = u := Option.some.inj (hu'.symm.trans hu)
    exact ⟨t, ht, hf k t u' ht hfu⟩
  · exact ⟨u, (hout k hk) ▸ hu, .refl⟩

end Frame

namespace Processor

variable (q : Processor)

/-- Task `id` is in phase `ph`. -/
def Has (id : String) (ph : TaskPhase) : Prop := ∃ t, q.state.tasks[id]? = some t ∧ t.phase = ph

/-- The phase of a task whose leaf of a kind runs. -/
def leafPhase : LeafKind → TaskPhase
  | .implement => .implementing
  | .fix => .fixing
  | _ => .reviewing

/-- The state in which an effect other than a budget check is asked for, where a model depends on
it; `clean` is the tip of the clean integration review that the turn concluded. -/
def DueNow (clean : Option String) : Effect → Prop
  | .reconcileInbox n | .drainQueueInbox n | .planNextWave n | .dispatchInboxCurator n .intake =>
    q.state.phase = .rolling ∧ n = q.freeSlots
  | .reconcileInboxFinalization | .dispatchInboxCurator _ .finalize | .prepareKnowledgeCuration
  | .dispatchIntegration .knowledgeCurator => q.state.phase = .cleaning
  | .dispatchDependencyCurator .cohortOpen =>
    q.state.phase = .rolling ∧ q.state.integration.dependencyGraphRefreshedOpen = false
  | .dispatchDependencyCurator .postArchive =>
    q.state.phase = .cleaning ∧ q.state.integration.dependencyGraphRefreshedPostArchive = false
  | .ensureTaskWorkspace id _ => q.Has id .capturing
  | .prepareTaskReview id => q.Has id .reviewing
  | .prepareTaskLeaf id kind | .dispatchTask id kind =>
    q.state.phase = .rolling ∧ q.Has id (leafPhase kind)
  | .commitTask id => q.Has id .committing
  | .prepareIntegrationWorkspace _ => q.state.phase = .joining
  | .mergeTask id =>
    q.state.phase = .joining ∧ q.state.integration.workspacePrepared = true ∧
      q.state.integration.pendingMergeResolution = none ∧ q.Has id .ready
  | .dispatchIntegration .merger =>
    q.state.phase = .joining ∧ q.state.integration.pendingMergeResolution.isSome = true
  | .finalizeMergeResolution id | .abortMergeResolution id _ =>
    q.state.phase = .joining ∧ q.Has id .resolvingMerge ∧
      q.state.integration.pendingMergeResolution.map (·.taskId) = some id
  | .verifyIntegration head =>
    clean = some head ∧ q.state.phase = .publishing ∧
      q.state.integration.integrationHead = some head ∧ q.state.integration.reviewSha = some head
  | .dispatchIntegration .integrationReview | .dispatchIntegration .integrationFix
  | .commitIntegrationFix | .dispatchIntegration .ciFix | .prepareCiFix | .commitCiFix =>
    q.state.phase = .publishing
  | .publish _ =>
    q.state.phase = .publishing ∧ q.state.integration.integrationHead.isSome = true ∧
      q.state.integration.verificationHead = q.state.integration.integrationHead
  | .reanchorPublication _ =>
    q.state.phase = .publishing ∧ q.state.integration.publicationReanchorReason.isSome = true
  | .verifyCi head =>
    q.state.phase = .publishing ∧ q.state.integration.publishedHead = some head
  | .prepareArchival => q.state.phase = .cleaning ∧ q.state.integration.archiveCiGate = none
  | .reconfirmCiBeforeArchive head _ =>
    q.state.phase = .cleaning ∧ q.state.integration.publishedHead = some head
  | .archiveTask id =>
    q.state.phase = .cleaning ∧ q.state.integration.archiveCiGate.isSome = true ∧
      (q.Has id .published ∨ q.Has id .done)
  | _ => True

/-- An effect is due; a budget check when the call behind it is. -/
def Due (clean : Option String) : Effect → Prop
  | .checkTokenBudget next | .checkCohortBudget next => q.DueNow clean next.intoEffect
  | effect => q.DueNow clean effect

/-- What a turn that admits nobody does to the tasks, and what it asks for. -/
structure Report (p : Processor) (clean : Option String) (x : Processor × List Effect) : Prop where
  frame : Frame p.config.reviewLoopMax.toNat p.state.tasks x.1.state.tasks
  due : ∀ e ∈ x.2, x.1.Due clean e

/-- Every task stands under its own id. -/
def Keyed (m : StringMap TaskRuntime) : Prop :=
  ∀ (id : String) (t : TaskRuntime), m[id]? = some t → t.id = id

variable {p q : Processor} {clean : Option String} {effects : List Effect}

theorem keyed (hs : Sound p) : Keyed p.state.tasks := fun id t ht => (hs.tasks id t ht).key

theorem Keyed.insert {m : StringMap TaskRuntime} {id : String} {u : TaskRuntime} (h : Keyed m)
    (hu : u.id = id) : Keyed (m.insert id u) := by
  intro k v hv
  rw [ExtTreeMap.getElem?_insert] at hv
  by_cases hk : id = k
  · subst hk
    obtain rfl : u = v := by simpa using hv
    exact hu
  · exact h k v (by simpa [hk] using hv)

theorem due_mono {e : Effect} (h : q.Due none e) : q.Due clean e := by
  cases e with
  | verifyIntegration head => exact absurd h.1 (by simp)
  | checkTokenBudget next | checkCohortBudget next =>
    cases next <;> first | exact h | (rename_i kind; cases kind <;> exact h)
  | dispatchInboxCurator n mode => cases mode <;> exact h
  | dispatchDependencyCurator boundary => cases boundary <;> exact h
  | dispatchIntegration kind => cases kind <;> exact h
  | _ => exact h

theorem Report.mono {x : Processor × List Effect} (h : p.Report none x) : p.Report clean x :=
  ⟨h.frame, fun e he => due_mono (h.due e he)⟩

theorem report_nil (hf : Frame p.config.reviewLoopMax.toNat p.state.tasks q.state.tasks) :
    p.Report clean (q, []) := ⟨hf, by simp⟩

theorem report_one {e : Effect} (hf : Frame p.config.reviewLoopMax.toNat p.state.tasks q.state.tasks)
    (he : q.Due clean e) : p.Report clean (q, [e]) := ⟨hf, by simpa using he⟩

theorem report_two {e e' : Effect}
    (hf : Frame p.config.reviewLoopMax.toNat p.state.tasks q.state.tasks) (he : q.Due clean e)
    (he' : q.Due clean e') : p.Report clean (q, [e, e']) := ⟨hf, by simp [he, he']⟩

theorem has_withTask {id : String} {u : TaskRuntime} : (p.withTask id u).Has id u.phase :=
  ⟨u, by simp [withTask, withTasks], rfl⟩

theorem has_withTask_of {id : String} {u : TaskRuntime} {ph : TaskPhase} (h : u.phase = ph) :
    (p.withTask id u).Has id ph := h ▸ has_withTask

section Rules

variable {Q : Unit → Prop}

@[simp] theorem post_require {c : Prop} [Decidable c] {error : ProcessorError} :
    Post (require c error) Q ↔ (c → Q ()) := by
  unfold require
  simp

@[simp] theorem post_orError {α : Type} {o : Option α} {error : ProcessorError} {R : α → Prop} :
    Post (orError o error) R ↔ ∀ a, o = some a → R a := by
  cases o <;> simp [orError]

@[simp] theorem post_requirePhase {ph : Phase} {operation : String} :
    Post (p.requirePhase ph operation) Q ↔ (p.state.phase = ph → Q ()) := by
  simp [requirePhase]

@[simp] theorem post_taskMut {id : String} {R : TaskRuntime → Prop} :
    Post (p.taskMut id) R ↔ ∀ t, p.state.tasks[id]? = some t → R t := by
  simp [taskMut]

@[simp] theorem post_expectTaskPhase {t : TaskRuntime} {ph : TaskPhase} {operation : String} :
    Post (expectTaskPhase t ph operation) Q ↔ (t.phase = ph → Q ()) := by
  simp [expectTaskPhase]

/-- A check whose outcome does not matter. -/
theorem post_check {x : Checked Unit} (h : Q ()) : Post x Q := fun _ _ => h

end Rules

/-- The escalation of one task. -/
theorem escalate_report {id reason : String} {t u : TaskRuntime} (ht : p.state.tasks[id]? = some t)
    (same : u.id = t.id ∧ u.conflictDomain = t.conflictDomain ∧ u.reviewCycles = t.reviewCycles)
    (hrank : t.phase.rank < 7) : p.Report clean (p.escalate id u reason) :=
  report_one (.insert ht (.rise .escalated same rfl hrank (by decide))) trivial

section TaskTurns

theorem workspaceReady_report {id : String} (hs : Sound p) :
    Post (p.workspaceReady id) (p.Report none) := by
  simp only [workspaceReady, post_bind, post_requirePhase, post_taskMut]
  intro hp t ht
  rw [(hs.tasks id t ht).native]
  simp only [post_bind, post_expectTaskPhase, post_ok]
  intro hph
  refine report_one (.insert ht (.rise .implementing ⟨rfl, rfl, rfl⟩ rfl ?_ (by decide))) ?_
  · rw [hph]; decide
  · exact ⟨hp, has_withTask⟩

theorem workspaceFailed_report {id reason : String} :
    Post (p.workspaceFailed id reason) (p.Report none) := by
  simp only [workspaceFailed, post_bind, post_taskMut, post_expectTaskPhase, post_ok]
  intro t ht hph
  exact escalate_report ht ⟨rfl, rfl, rfl⟩ (by rw [hph]; decide)

theorem finishLeaf_report {id : String} {t u : TaskRuntime} {kind : LeafKind} {author : Option String}
    {wontFixed : Option Nat} (ht : p.state.tasks[id]? = some t) (hrank : t.phase.rank = 1)
    (same : u.id = t.id ∧ u.conflictDomain = t.conflictDomain ∧ u.reviewCycles = t.reviewCycles) :
    Post (p.finishLeaf id u kind author wontFixed) (p.Report none) := by
  have hcommit : t.phase.rank < TaskPhase.committing.rank := by rw [hrank]; decide
  unfold finishLeaf
  cases wontFixed with
  | none =>
    exact post_ok.2 <|
      report_one (.insert ht (.rise .committing same rfl hcommit (by decide))) has_withTask
  | some n =>
    simp only [post_bind, post_require]
    intro _
    split
    · exact post_ok.2 (escalate_report ht same (by omega))
    · exact post_ok.2 <|
        report_one (.insert ht (.rise .committing same rfl hcommit (by decide))) has_withTask

theorem finishRaised_report {id : String} {t : TaskRuntime} {kind : LeafKind} {author : Option String}
    {risk : Risk} {wontFixed : Option Nat} (ht : p.state.tasks[id]? = some t)
    (hrank : t.phase.rank = 1) :
    Post (p.finishRaised id t kind author risk wontFixed) (p.Report none) := by
  unfold finishRaised
  split
  · exact post_ok.2 (escalate_report ht ⟨rfl, rfl, rfl⟩ (by omega))
  · exact finishLeaf_report ht hrank ⟨rfl, rfl, rfl⟩

theorem taskLeaf_report {id : String} {outcome : LeafOutcome} :
    Post (p.taskLeaf id outcome) (p.Report none) := by
  simp only [taskLeaf, post_bind, post_requirePhase, post_taskMut]
  intro hp t ht kind hkind
  have hleaf : t.phase = leafPhase kind ∧ t.phase.rank = 1 := by
    rcases leafOf_eq_ok hkind with ⟨h, rfl⟩ | ⟨h, rfl⟩ <;> rw [h] <;> exact ⟨rfl, rfl⟩
  obtain ⟨hph, hrank⟩ := hleaf
  cases outcome with
  | completed author => exact finishLeaf_report ht hrank ⟨rfl, rfl, rfl⟩
  | riskElevated author risk wontFixed => exact finishRaised_report ht hrank
  | completedWithWontFix author n => exact finishLeaf_report ht hrank ⟨rfl, rfl, rfl⟩
  | retryableFailure reason =>
    simp only [post_ite, post_ok]
    constructor
    · intro _
      refine report_one (.insert ht ⟨rfl, rfl, .still rfl rfl⟩) ⟨hp, ?_⟩
      rw [← hph]; exact has_withTask
    · intro _
      exact escalate_report ht ⟨rfl, rfl, rfl⟩ (by omega)
  | escalated reason => exact post_ok.2 (escalate_report ht ⟨rfl, rfl, rfl⟩ (by omega))

theorem taskLeafPrepared_report {id : String} {outcome : TaskLeafPreparationOutcome} :
    Post (p.taskLeafPrepared id outcome) (p.Report none) := by
  simp only [taskLeafPrepared, post_bind, post_requirePhase, post_taskMut]
  intro hp t ht kind hkind
  have hleaf : t.phase = leafPhase kind ∧ t.phase.rank = 1 := by
    rcases leafOf_eq_ok hkind with ⟨h, rfl⟩ | ⟨h, rfl⟩ <;> rw [h] <;> exact ⟨rfl, rfl⟩
  obtain ⟨hph, hrank⟩ := hleaf
  cases outcome with
  | completed => exact finishLeaf_report ht hrank ⟨rfl, rfl, rfl⟩
  | completedWithWontFix n => exact finishLeaf_report ht hrank ⟨rfl, rfl, rfl⟩
  | riskElevated risk wontFixed => exact finishRaised_report ht hrank
  | skipped | fallback => exact post_ok.2 (report_one .refl ⟨hp, t, ht, hph⟩)
  | sandboxDowngraded scope => exact post_ok.2 (report_two .refl trivial ⟨hp, t, ht, hph⟩)
  | escalated reason => exact post_ok.2 (escalate_report ht ⟨rfl, rfl, rfl⟩ (by omega))

theorem taskCommitted_report {id commit : String} :
    Post (p.taskCommitted id commit) (p.Report none) := by
  simp only [taskCommitted, post_bind, post_taskMut, post_expectTaskPhase, post_ite, post_ok]
  refine post_check fun t ht hph => ⟨fun _ => ?_, fun hlimit => ?_⟩
  · exact escalate_report ht ⟨rfl, rfl, rfl⟩ (by rw [hph]; decide)
  · refine report_one (.insert ht ⟨rfl, rfl, .onward ?_ rfl fun _ => Nat.lt_of_not_le hlimit⟩)
      has_withTask
    rw [hph]
    exact (by decide : TaskPhase.committing.rank < TaskPhase.reviewing.rank)

/-- An escalation that ends a review. -/
theorem escalateReviewed_report {id reason : String} {t u : TaskRuntime}
    (ht : p.state.tasks[id]? = some t) (hph : t.phase = .reviewing)
    (same : u.id = t.id ∧ u.conflictDomain = t.conflictDomain)
    (hc : u.reviewCycles = satAdd t.reviewCycles 1) :
    p.Report clean (p.escalate id u reason) :=
  report_one (.insert ht (.reviewed hph same hc (.inr (.inr rfl)))) trivial

theorem concludeReview_report {id sha : String} {t u : TaskRuntime} (ht : p.state.tasks[id]? = some t)
    (hph : t.phase = .reviewing) (same : u.id = t.id ∧ u.conflictDomain = t.conflictDomain)
    (hc : u.reviewCycles = t.reviewCycles) : Post (p.concludeReview id u sha) (p.Report none) := by
  simp only [concludeReview, post_ite, post_ok]
  constructor
  · intro _
    exact escalateReviewed_report ht hph same (by rw [hc])
  · intro _
    exact report_nil (.insert ht (.reviewed hph same (by rw [hc]) (.inr (.inl rfl))))

theorem recordFindings_report {id signature : String} {t u : TaskRuntime} {n : Nat}
    {ids : List String} (hp : p.state.phase = .rolling) (ht : p.state.tasks[id]? = some t)
    (hph : t.phase = .reviewing) (same : u.id = t.id ∧ u.conflictDomain = t.conflictDomain)
    (hc : u.reviewCycles = t.reviewCycles) :
    Post (p.recordFindings id u signature n ids) (p.Report none) := by
  simp only [recordFindings]
  split
  · exact post_ok.2 (escalateReviewed_report ht hph same (by rw [hc]))
  split
  · exact post_ok.2 (escalateReviewed_report ht hph same (by rw [hc]))
  · exact post_ok.2 <| report_one
      (.insert ht (.reviewed hph same (by rw [← hc]; rfl) (.inl rfl))) ⟨hp, has_withTask⟩

theorem taskReview_report {id : String} {outcome : ReviewOutcome} :
    Post (p.taskReview id outcome) (p.Report none) := by
  simp only [taskReview, post_bind, post_requirePhase, post_taskMut, post_expectTaskPhase]
  intro hp t ht hph
  have hrank : t.phase.rank < 7 := by rw [hph]; decide
  cases outcome with
  | clean sha =>
    simp only [post_bind]
    exact post_check (concludeReview_report ht hph ⟨rfl, rfl⟩ rfl)
  | cleanRiskElevated sha risk =>
    simp only [post_bind]
    refine post_check ?_
    split
    · exact post_ok.2 (escalate_report ht ⟨rfl, rfl, rfl⟩ hrank)
    · exact concludeReview_report ht hph ⟨rfl, rfl⟩ rfl
  | findings signature n ids =>
    simp only [post_bind]
    exact post_check (recordFindings_report hp ht hph ⟨rfl, rfl⟩ rfl)
  | findingsRiskElevated signature risk n ids =>
    simp only [post_bind]
    refine post_check ?_
    split
    · exact post_ok.2 (escalate_report ht ⟨rfl, rfl, rfl⟩ hrank)
    · exact recordFindings_report hp ht hph ⟨rfl, rfl⟩ rfl
  | incomplete =>
    simp only [post_ite, post_ok]
    constructor
    · intro _
      exact escalateReviewed_report ht hph ⟨rfl, rfl⟩ rfl
    · intro hlimit
      refine report_one (.insert ht ⟨rfl, rfl, .review hph rfl (.inr (.inl hph)) fun _ => ?_⟩) ?_
      · exact Nat.lt_of_not_le hlimit
      · exact has_withTask_of hph
  | escalated reason => exact post_ok.2 (escalateReviewed_report ht hph ⟨rfl, rfl⟩ rfl)

theorem taskReviewPrepared_report {id : String} {outcome : TaskReviewPreparationOutcome} :
    Post (p.taskReviewPrepared id outcome) (p.Report none) := by
  simp only [taskReviewPrepared, post_bind, post_requirePhase, post_taskMut, post_expectTaskPhase,
    post_ite]
  intro hp t ht hph
  refine ⟨fun _ => post_ok.2 (escalate_report ht ⟨rfl, rfl, rfl⟩ (by rw [hph]; decide)), fun _ => ?_⟩
  -- reserving the attempt does not move the task
  have hreserve : ∀ {p' : Processor} {x : Processor × List Effect},
      p' = p ∨ p' = p.withTask id (t.leafAttempt .review) → p'.Report none x → p.Report none x := by
    rintro p' x (rfl | rfl) h
    · exact h
    · exact ⟨.after (u := t.leafAttempt .review) ht rfl rfl rfl rfl h.frame, h.due⟩
  generalize hp' : (if (t.leafAttempts[LeafKind.review.asStr]?).getD 0 = 0 then
    p.withTask id (t.leafAttempt .review) else p) = p'
  have hcases : p' = p ∨ p' = p.withTask id (t.leafAttempt .review) := by
    rw [← hp']; split
    · exact .inr rfl
    · exact .inl rfl
  have hhas : p'.state.phase = .rolling ∧ p'.Has id .reviewing := by
    rcases hcases with rfl | rfl
    · exact ⟨hp, t, ht, hph⟩
    · exact ⟨hp, has_withTask_of hph⟩
  cases outcome with
  | completed outcome => exact taskReview_report.mono fun x => hreserve hcases
  | dispatchClaude => exact post_ok.2 (hreserve hcases (report_one .refl hhas))
  | sandboxDowngraded scope => exact post_ok.2 (hreserve hcases (report_two .refl trivial hhas))

end TaskTurns

end Processor

end Orchestrail
