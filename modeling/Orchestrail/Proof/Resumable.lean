import Orchestrail.Proof.Books

/-!
# A checkpoint that can be resumed

`from_checkpoint` refuses a state whose archive gate is set outside a journaled phase 6. The gate is
set by the archive preflight; afterwards two transitions forget about it.
-/

namespace Orchestrail

open Steps Course

namespace Course

variable {c d : Course}

/-- What a set archive gate comes with. -/
structure GateOk (c : Course) : Prop where
  here : c.phase = .cleaning ∨ c.phase = .paused ∧ c.pausedFrom = some .cleaning
  batch : c.batch.isSome = true
  journaled : c.journaled = true
  unmerged : c.No (· = .merged)
  context : c.merged.isEmpty = false →
    c.publishedHead.isSome = true ∧ c.pushed.isSome = true ∧ c.ci.isSome = true
  confirmed : c.gate = some .confirmed →
    c.pushed = some true ∧ c.ci = some .confirmed ∧ c.publishedHead.isSome = true

/-- **The archive gate of a run without restarts.** -/
structure GateKept (c : Course) : Prop where
  fresh : c.target = none
  paused : c.pausedFrom ≠ some .paused
  late : c.bound .publishing ∨ c.bound .cleaning → c.No (· = .ready)
  gate : c.gate ≠ none → c.GateOk

/-- Without a gate only the phases matter. -/
theorem gateKept_of_none (ht : c.target = none) (hp : c.pausedFrom ≠ some .paused)
    (hl : c.bound .publishing ∨ c.bound .cleaning → c.No (· = .ready)) (hg : c.gate = none) :
    c.GateKept :=
  ⟨ht, hp, hl, fun h => absurd hg h⟩

theorem not_late (hp : c.phase ≠ .paused) (hr : c.phase ≠ .recovery) (h1 : c.phase ≠ .publishing)
    (h2 : c.phase ≠ .cleaning) : ¬(c.bound .publishing ∨ c.bound .cleaning) := by
  rw [bound_iff hp hr, bound_iff hp hr]
  rintro (h | h)
  exacts [h1 h, h2 h]

end Course

theorem Next.late {c d : Course} (h : Next c d) (hp : c.phase = .joining)
    (hl : d.bound .publishing ∨ d.bound .cleaning) : d.No (· = .ready) := by
  have hnot := not_late (c := c) (by simp [hp]) (by simp [hp]) (by simp [hp]) (by simp [hp])
  cases h with
  | unprepared | resolve | merge => exact absurd hl hnot
  | clean _ _ hr | review _ _ hr => exact hr

theorem Shift.gateKept {config : ProcessorConfig} {c d : Course} {cmd : ProcessorCommand}
    (h : Shift config c cmd d) (hk : c.GateKept) (hman : c.Manned)
    (hhold : c.gate ≠ none → mayHold c.phase cmd = false)
    (hpass : ∀ head, cmd = .archiveCiReconfirmed head .passed → c.No (· = .merged)) : d.GateKept := by
  have ht := hk.fresh
  have hf := hk.paused
  -- the gate belongs to phase 6
  have hnone : c.phase ≠ .cleaning → c.phase ≠ .paused → c.gate = none := by
    intro h1 h2
    by_contra hg
    rcases (hk.gate hg).here with h | ⟨h, -⟩
    exacts [h1 h, h2 h]
  have hlate : ∀ {e : Course}, e.phase = c.phase → e.pausedFrom = c.pausedFrom → e.target = c.target →
      (c.No (· = .ready) → e.No (· = .ready)) →
      (e.bound .publishing ∨ e.bound .cleaning → e.No (· = .ready)) := by
    intro e h1 h2 h3 h4 h
    refine h4 (hk.late ?_)
    rwa [bound_congr h1 h2 h3, bound_congr h1 h2 h3] at h
  -- stopping is only possible without a gate
  have hstop : c.gate = none → ∀ {e : Course}, e.target = none → e.pausedFrom ≠ some .paused →
      e.phase = .blocked ∨ e.phase = .idle ∨ e.phase = .rolling ∨ e.phase = .joining →
      e.gate = c.gate → e.GateKept := by
    intro hg e h1 h2 h3 h4
    refine gateKept_of_none h1 h2 (fun h => absurd h (not_late ?_ ?_ ?_ ?_)) (h4.trans hg) <;>
      rcases h3 with h | h | h | h <;> simp [h]
  have hgoing : ∀ {ph}, c.phase = ph → ph ≠ .cleaning → ph ≠ .paused → c.gate = none :=
    fun h h1 h2 => hnone (h ▸ h1) (h ▸ h2)
  have hgoes : ∀ {e : Course}, e.target = none → e.pausedFrom ≠ some .paused →
      (e.bound .publishing ∨ e.bound .cleaning → e.No (· = .ready)) → e.gate = none → e.GateKept :=
    gateKept_of_none
  -- a task outside the recorded phases moves
  have htask : ∀ {id : String} {m : Mark}, m.phase ≠ .ready ∧ m.phase ≠ .merged →
      (c.setTask id m).GateKept := by
    intro id m hm
    refine ⟨ht, hf, hlate rfl rfl rfl (no_setTask (by simpa using hm.1)), fun hg => ?_⟩
    have hok := hk.gate hg
    exact ⟨hok.here, hok.batch, hok.journaled, no_setTask (by simpa using hm.2) hok.unmerged,
      hok.context, hok.confirmed⟩
  cases h with
  | stay => exact hk
  | hold h =>
    have hg : c.gate = none := by
      by_contra hg
      simp [hhold hg] at h
    exact hstop hg ht hf (.inl rfl) rfl
  | pause hp =>
    refine ⟨ht, by simpa using hp, fun h => ?_, fun hg => ?_⟩
    · exact hk.late (h.imp (bound_pause · (by simp)) (bound_pause · (by simp)))
    · have hok := hk.gate hg
      rcases hok.here with h | ⟨h, -⟩
      · exact ⟨.inr ⟨rfl, by simp [h]⟩, hok.batch, hok.journaled, hok.unmerged, hok.context, hok.confirmed⟩
      · exact absurd h hp
  | resumeStay hp hphase =>
    subst hphase
    refine ⟨ht, by simp, fun h => hk.late (h.imp (bound_resume hp hf) (bound_resume hp hf)), fun hg => ?_⟩
    have hok := hk.gate hg
    rcases hok.here with h | ⟨-, h⟩
    · simp [hp] at h
    · exact ⟨.inl (by simp [h]), hok.batch, hok.journaled, hok.unmerged, hok.context, hok.confirmed⟩
  | resumeHold hp hfrom =>
    refine hstop (by_contra fun hg => ?_) ht (by simp) (.inl rfl) rfl
    rcases (hk.gate hg).here with h | ⟨-, h⟩ <;> simp_all
  | resumeJoin hp hfrom hn =>
    have hg : c.gate = none := by
      by_contra hg
      rcases (hk.gate hg).here with h | ⟨-, h⟩ <;> simp_all
    have hd := hn.late rfl
    rw [hn.eq] at hd ⊢
    exact hgoes ht (by simp) hd hg
  | recoverHold hp hcase =>
    refine hstop (hgoing hp (by simp) (by simp)) ?_ hf (.inl rfl) rfl
    rcases hcase with ⟨h, -⟩ | ⟨h, -⟩
    exacts [h, h.trans ht]
  | recoverIdle hp => exact hstop (hgoing hp (by simp) (by simp)) rfl hf (.inr (.inl rfl)) rfl
  | recoverTo _ _ h | recoverStop _ _ h => simp [ht] at h
  | recoverJoin hp =>
    exact hstop (hgoing hp (by simp) (by simp)) rfl hf (.inr (.inr (.inr rfl))) rfl
  | recoverRoll hp =>
    exact hstop (hgoing hp (by simp) (by simp)) rfl hf (.inr (.inr (.inl rfl))) rfl
  | recoverNext hp _ _ _ _ hn =>
    have hd := hn.late rfl
    rw [hn.eq] at hd ⊢
    exact hgoes rfl hf hd (hgoing hp (by simp) (by simp))
  | openCohort =>
    exact hgoes ht hf (fun _ id m hm => by simp at hm) rfl
  | admitWave hp =>
    exact hstop (hgoing hp (by simp) (by simp)) ht hf (.inr (.inr (.inl hp))) rfl
  | closeWave hp _ _ hcl | advance hp _ _ hcl =>
    have hg := hgoing hp (by simp) (by simp)
    cases hcl with
    | wait => exact hstop hg ht hf (.inr (.inr (.inl hp))) rfl
    | join => exact hstop hg ht hf (.inr (.inr (.inr rfl))) rfl
    | clean _ hr => exact hgoes ht hf (fun _ => hr) hg
  | refreshOpen hp =>
    exact hgoes ht hf (hlate rfl rfl rfl id) (hgoing hp (by simp) (by simp))
  | refreshPost hp =>
    refine ⟨ht, hf, hlate rfl rfl rfl id, fun hg => ?_⟩
    have hok := hk.gate hg
    exact ⟨hok.here, hok.batch, hok.journaled, hok.unmerged, hok.context, hok.confirmed⟩
  | halt hb _ hcl =>
    cases hcl with
    | wait hid hact =>
      exact absurd escalateActive_no_active (not_no (·.isActive) hid hact)
    | @join id hno hready =>
      have hg : c.gate = none := by
        by_contra hg
        have hclean : c.bound .cleaning := by
          rcases (hk.gate hg).here with h | ⟨h, h'⟩
          exacts [.inl h, .inr (.inl ⟨h, .inl (by simp [h'])⟩)]
        exact no_iff_not_in.1 (hk.late (.inr hclean)) id
          ((in_escalateActive rfl (by simp)).1 hready)
      exact hstop hg ht hf (.inr (.inr (.inr rfl))) rfl
    | clean _ hr =>
      refine ⟨ht, hf, fun _ => hr, fun hg => ?_⟩
      have hok := hk.gate hg
      exact ⟨.inl rfl, rfl, hok.journaled, no_escalateActive rfl hok.unmerged, hok.context,
        hok.confirmed⟩
  | task harrow => exact htask ⟨harrow.lands.2.2.2.2, harrow.lands.2.2.2.1⟩
  | taskCommitted harrow => exact htask ⟨harrow.lands.2.2.2.2, harrow.lands.2.2.2.1⟩
  | taskReady hp =>
    exact hstop (hgoing hp (by simp) (by simp)) ht hf (.inr (.inr (.inl hp))) rfl
  | workspaceReady hp hn | merged hp _ hn | quarantined hp _ hn | resolved hp _ _ hn
  | unresolved hp _ _ _ hn =>
    have hd := hn.late hp
    rw [hn.eq] at hd ⊢
    exact hgoes ht hf hd (hgoing hp (by simp) (by simp))
  | needsResolution hp =>
    exact hstop (hgoing hp (by simp) (by simp)) ht hf (.inr (.inr (.inr hp))) rfl
  | verified hp | reviewed hp | reanchorRequired hp =>
    exact hgoes ht hf (hlate rfl rfl rfl id) (hgoing hp (by simp) (by simp))
  | findings hp hph | fixCommitted hp hph =>
    have hg := hgoing hp (by simp) (by simp)
    rcases hph with rfl | rfl
    · exact hgoes ht hf (hlate hp.symm rfl rfl id) hg
    · exact hstop hg ht hf (.inl rfl) rfl
  | published => exact hgoes ht hf (hlate rfl rfl rfl (no_moveAll rfl)) rfl
  | rejected hp =>
    exact hgoes ht hf (fun _ => no_moveAll rfl (hk.late (.inl (bound_here hp))))
      (hgoing hp (by simp) (by simp))
  | reanchored hp =>
    exact hstop (hgoing hp (by simp) (by simp)) ht hf (.inr (.inr (.inr rfl))) rfl
  | ciSettled hp =>
    exact hgoes ht hf (fun _ => hk.late (.inl (bound_here hp))) (hgoing hp (by simp) (by simp))
  | ciOpen hobs | ciFailed hobs =>
    cases hobs with
    | publish hp => exact hgoes ht hf (hlate rfl rfl rfl id) (hgoing hp (by simp) (by simp))
    | archive hp _ hg => exact hgoes ht hf (fun _ => hk.late (.inr (bound_here hp))) hg
  | ciGivenUp hobs =>
    cases hobs with
    | publish hp => exact hstop (hgoing hp (by simp) (by simp)) ht hf (.inl rfl) rfl
    | archive hp _ hg => exact hstop hg ht hf (.inl rfl) rfl
  | ciHold hp => exact hstop (hgoing hp (by simp) (by simp)) ht hf (.inl rfl) rfl
  | repaired => exact hgoes ht hf (hlate rfl rfl rfl id) rfl
  | skipped hp hj hg hb hno _ _ hctx =>
    exact ⟨ht, hf, hlate rfl rfl rfl id, fun _ => ⟨.inl hp, hb, hj, hno, hctx, by simp⟩⟩
  | @reconfirmed head hp hj hg hhead hpushed hci =>
    refine ⟨ht, hf, hlate rfl rfl rfl id, fun _ => ⟨.inl hp, ?_, hj, hpass head rfl, fun _ => ?_,
      fun _ => ⟨hpushed, hci, by simp [hhead]⟩⟩⟩
    · exact hman.batch .cleaning rfl (bound_here hp)
    · simp [hhead, hpushed, hci]
  | finished => exact hgoes ht hf (fun h => absurd h (not_late (by simp) (by simp) (by simp) (by simp))) rfl

theorem initial_gateKept : Course.initial.GateKept :=
  ⟨rfl, by simp [Course.initial], fun _ id m hm => by simp [Course.initial] at hm,
    fun h => absurd rfl h⟩

/-- Every move but a restart keeps the gate, within the two conditions. -/
theorem Moves.gateKept {config : ProcessorConfig} {c d : Course} {step : ProcessorStep}
    (h : Moves config c step d) (hk : c.GateKept) (hman : c.Manned) (hgo : step ≠ .restart)
    (hhold : ∀ cmd, step = .apply cmd → c.stands cmd = false → c.gate ≠ none → mayHold c.phase cmd = false)
    (hpass : ∀ head, step = .apply (.archiveCiReconfirmed head .passed) →
      c.stands (.archiveCiReconfirmed head .passed) = false → c.No (· = .merged)) :
    d.GateKept := by
  cases h with
  | stand | noted => exact hk
  | shift hstand hshift =>
    exact hshift.gateKept hk hman (hhold _ rfl hstand) fun head hcmd =>
      hpass head (by rw [hcmd]) (hcmd ▸ hstand)
  | journal =>
    refine ⟨hk.fresh, hk.paused, hk.late, fun hg => ?_⟩
    have hok := hk.gate hg
    exact ⟨hok.here, hok.batch, rfl, hok.unmerged, hok.context, hok.confirmed⟩
  | restart => exact absurd rfl hgo

namespace Processor

variable {config : ProcessorConfig} {p p0 q : Processor}

theorem checkCoordinate_ok {context label : String} {o : Option String} (h : ∀ r ∈ o, isRef r = true) :
    ProcessorState.checkCoordinate context label o = .ok () := by
  cases o with
  | none => rfl
  | some r => simpa [ProcessorState.checkCoordinate, validateRef] using h r rfl

theorem checkCuration_ok {id : String} {k : PendingKnowledgeCuration} (h : CurationOk id k) :
    ProcessorState.checkCuration (id, k) = .ok () := by
  simp only [ProcessorState.checkCuration, bind_eq_ok, exists_const, orCorrupt_eq_ok, validateBatchId,
    validateRef, validateTaskId, require_eq_ok, checkAll_eq_ok, List.mem_append]
  refine ⟨h.id, h.base, h.head, ?_⟩
  rintro t ((ht | ht) | ht)
  exacts [h.merged t (Table.mem_elems.1 ht), h.quarantined t (Table.mem_elems.1 ht),
    h.escalated t (Table.mem_elems.1 ht)]

theorem checkTask_ok {id : String} {t : TaskRuntime} (h : TaskOk id t) :
    ProcessorState.checkTask (id, t) = .ok () := by
  have hkey := h.key
  simp only [ProcessorState.checkTask, bind_eq_ok, exists_const, orCorrupt_eq_ok, validateTaskId,
    require_eq_ok]
  exact ⟨h.valid, hkey ▸ h.valid, hkey.symm, h.wave, h.domain, (), checkCoordinate_ok h.previous,
    checkCoordinate_ok h.review⟩

theorem checkGate_ok {gate : ArchiveCiGate} (hs : Sound p) (hb : p.course.Books)
    (hg : p.course.GateOk) (hgate : p.state.integration.archiveCiGate = some gate) :
    p.state.checkGate gate = .ok () := by
  have hmerged : ∀ id ∈ p.state.integration.mergedTasks, p.course.In id .published := fun id hid =>
    (hb.merged id hid).resolve_left (no_iff_not_in.1 hg.unmerged id)
  have hconfirmed : gate = .confirmed → p.state.integration.publicationPushed = some true ∧
      p.state.integration.ciDisposition = some .confirmed ∧
      p.state.integration.publishedHead ≠ none := by
    rintro rfl
    obtain ⟨h1, h2, h3⟩ := hg.confirmed hgate
    exact ⟨h1, h2, Option.isSome_iff_ne_none.1 h3⟩
  simp only [ProcessorState.checkGate, bind_eq_ok, exists_const, require_eq_ok, checkAll_eq_ok,
    requireNone_eq_ok]
  refine ⟨⟨hg.here, ?_, hg.journaled⟩, ?_, ?_, ?_, ?_, hconfirmed, ?_⟩
  · simpa [course, Option.isSome_iff_ne_none] using hg.batch
  · exact Table.any_vals_eq_false.2 (no_iff.1 hg.unmerged)
  · intro id hid
    obtain ⟨t, ht, hph⟩ := in_iff.1 (hmerged id (Table.mem_elems.1 hid))
    simp only [ProcessorState.checkGatedTask, bind_eq_ok, orError_eq_ok, require_eq_ok]
    exact ⟨t, ht, hph⟩
  · intro t ht
    obtain ⟨id, hid⟩ := Table.mem_vals.1 ht
    have hkey := (hs.tasks id t hid).key
    rw [decide_eq_false_iff_not]
    rintro ⟨hph, hnot⟩
    exact hnot (hkey.symm ▸ hb.published id (in_iff.2 ⟨t, hid, hph⟩))
  · by_cases he : p.state.integration.mergedTasks.isEmpty = true
    · exact .inl he
    · obtain ⟨h1, h2, h3⟩ := hg.context (Bool.eq_false_iff.2 he)
      exact .inr ⟨Option.isSome_iff_ne_none.1 h1, Option.isSome_iff_ne_none.1 h2,
        Option.isSome_iff_ne_none.1 h3⟩
  · split
    · rename_i hc
      obtain ⟨-, -, h3⟩ := hconfirmed hc
      obtain ⟨head, hhead⟩ := Option.ne_none_iff_exists'.1 h3
      obtain ⟨-, -, -, -, hpub, -⟩ := coordinates hs
      simpa [hhead, validateRef] using hpub head hhead
    · rfl

/-- **Every check of `from_checkpoint` passes.** -/
theorem check_ok (hs : Sound p) (hb : p.course.Books) (hk : p.course.GateKept) :
    p.state.check p.config = .ok () := by
  obtain ⟨-, hh, hr, hv, hpub, hpre⟩ := coordinates hs
  simp only [ProcessorState.check, bind_eq_ok, exists_const, require_eq_ok]
  refine ⟨hs.version, (), ?_, (), ?_, (), checkCoordinate_ok hh, (), checkCoordinate_ok hr, (),
    checkCoordinate_ok hv, (), checkCoordinate_ok hpub, (), ?_, (), ?_, (), ?_, (), ?_, ?_⟩
  · rw [checkAll_eq_ok]
    intro b hb
    have hok := hs.batch b (Option.mem_toList.1 hb)
    simp only [ProcessorState.checkBatch, bind_eq_ok, exists_const, orCorrupt_eq_ok, validateBatchId,
      validateRef, require_eq_ok]
    exact ⟨hok.id, hok.base, hok.wave⟩
  · rw [checkAll_eq_ok]
    rintro ⟨id, t⟩ he
    exact checkTask_ok (hs.tasks id t (Std.ExtTreeMap.mem_toList_iff_getElem?_eq_some.1 he))
  · rw [checkAll_eq_ok]
    intro id hid
    have hin : ∃ t : TaskRuntime, p.state.tasks[id]? = some t := by
      rcases hb.merged id (Table.mem_elems.1 hid) with h | h <;>
        exact (in_iff.1 h).imp fun _ h => h.1
    obtain ⟨t, ht⟩ := hin
    simp only [ProcessorState.checkMerged, bind_eq_ok, exists_const, orCorrupt_eq_ok, validateTaskId,
      require_eq_ok]
    refine ⟨(hs.tasks id t ht).valid, ?_⟩
    rw [Std.ExtTreeMap.mem_iff_isSome_getElem?, ht]; rfl
  · rw [checkAll_eq_ok]
    intro m hm
    have hm := Option.mem_toList.1 hm
    obtain ⟨t, ht, hph⟩ := in_iff.1 (hb.resolving m.taskId (by simp [course, Option.mem_def.1 hm]))
    simp only [ProcessorState.checkPendingMerge, bind_eq_ok, exists_const, orCorrupt_eq_ok,
      validateTaskId, validateRef, orError_eq_ok, require_eq_ok]
    exact ⟨(hs.tasks _ t ht).valid, hpre m hm, t, ht, hph⟩
  · rw [checkAll_eq_ok]
    intro b hb
    have hok := hs.batch b (Option.mem_toList.1 hb)
    simp only [ProcessorState.checkSafetySnapshot, require_eq_ok]
    exact ⟨hok.budget, hok.tokens, hok.strict, hok.events⟩
  · rw [checkAll_eq_ok]
    rintro ⟨id, k⟩ he
    exact checkCuration_ok
      (hs.integration.curations id k (Std.ExtTreeMap.mem_toList_iff_getElem?_eq_some.1 he))
  · rw [checkAll_eq_ok]
    intro gate hg
    have hg := Option.mem_toList.1 hg
    exact checkGate_ok hs hb (hk.gate (by simp [course, Option.mem_def.1 hg])) hg

/-- A gate confirmed while merged work is unpublished. -/
def confirmsUnpublished (p : Processor) : ProcessorCommand → Bool
  | .archiveCiReconfirmed _ .passed => p.taskList.any (·.phase = .merged)
  | _ => false

/-- The steps of one session that keep the checkpoint resumable: none stops in `Blocked` with the
archive gate set, none confirms the gate while merged work is unpublished. -/
def keepsGate (p : Processor) : ProcessorStep → Bool
  | .apply cmd => (p.standingReply cmd).isSome ||
      !(p.state.integration.archiveCiGate.isSome && mayHold p.state.phase cmd) &&
        !p.confirmsUnpublished cmd
  | .acknowledge _ => true
  | .restart => false

/-- The checkpoint is accepted, and nothing of the cohort is lost. -/
def Resumable (config : ProcessorConfig) (p : Processor) : Prop :=
  ∃ q, fromCheckpoint config p.state = .ok q ∧ q.state.tasks = p.state.tasks ∧
    q.state.batch = p.state.batch ∧ q.state.integration = p.state.integration ∧
    q.state.blockedReason = p.state.blockedReason

theorem gateKept_of_reach (hnew : Processor.new config = .ok p0)
    (hrun : Reach Processor.next (fun p step => p.keepsGate step = true) p0 p) :
    Sound p ∧ p.config = config ∧ p.course.Books ∧ p.course.Manned ∧ p.course.GateKept := by
  obtain ⟨-, hs, hconfig, hc⟩ := new_spec hnew
  suffices hstep : ∀ r step d, (r.course.Books ∧ r.course.Manned ∧ r.course.GateKept) → Sound r →
      r.keepsGate step = true → Moves r.config r.course step d → d.Books ∧ d.Manned ∧ d.GateKept by
    obtain ⟨hs, hcfg, h⟩ := reach_course (I := fun c => c.Books ∧ c.Manned ∧ c.GateKept) hrun hs
      (hc ▸ ⟨initial_books, initial_manned, initial_gateKept⟩) hstep
    exact ⟨hs, hcfg.trans hconfig, h⟩
  rintro r step d ⟨hb, hm, hk⟩ hr hok hmove
  refine ⟨hmove.books hb, hmove.manned hm, hmove.gateKept hk hm ?_ (fun cmd hcmd hstand hg => ?_)
    fun head hcmd hstand => ?_⟩
  · rintro rfl; simp [keepsGate] at hok
  · subst hcmd
    have hgate : r.state.integration.archiveCiGate ≠ none := hg
    have hphase : r.course.phase = r.state.phase := rfl
    simp only [keepsGate, standingReply_isSome, hstand, Bool.false_or, Bool.and_eq_true,
      Bool.not_eq_true', Bool.and_eq_false_iff] at hok
    rw [hphase]
    exact hok.1.resolve_left (by simpa [Option.isSome_iff_ne_none] using hgate)
  · subst hcmd
    simp only [keepsGate, standingReply_isSome, hstand, Bool.false_or, Bool.and_eq_true,
      Bool.not_eq_true', confirmsUnpublished, ← Bool.not_eq_true, any_phase] at hok
    exact no_iff_not_in.2 fun id hid => hok.2 ⟨id, hid⟩

theorem resumable_of_kept (hs : Sound p) (hconfig : p.config = config) (hv : config.validate = .ok ())
    (hb : p.course.Books) (hk : p.course.GateKept) : Resumable config p := by
  subst hconfig
  refine ⟨{ config := p.config, state := { p.state with phase := .recovery }
            recoveryTarget := some p.state.phase }, ?_, rfl, rfl, rfl, rfl⟩
  simp only [fromCheckpoint, bind_eq_ok]
  exact ⟨(), hv, (), check_ok hs hb hk, trivial⟩

/-- What `from_checkpoint` asks of a set gate. -/
theorem gate_of_resumable (h : Resumable config p) (hg : p.state.integration.archiveCiGate ≠ none) :
    p.state.inCleaning ∧ p.taskList.any (·.phase = .merged) = false := by
  obtain ⟨q, hq, -⟩ := h
  simp only [fromCheckpoint, bind_eq_ok, ProcessorState.check] at hq
  obtain ⟨gate, hgate⟩ := Option.ne_none_iff_exists'.1 hg
  obtain ⟨_, -, _, ⟨_, -, _, -, _, -, _, -, _, -, _, -, _, -, _, -, _, -, _, -, _, -, hcheck⟩, -⟩ := hq
  rw [checkAll_eq_ok] at hcheck
  have h := hcheck gate (by simp [hgate])
  simp only [ProcessorState.checkGate, bind_eq_ok, exists_const, require_eq_ok] at h
  exact ⟨h.1, h.2.1⟩

theorem inboxCurated_holds {n : Nat} {mode : InboxCurationMode} {outcome : LeafOutcome}
    {effects : List Effect} (hne : ∀ author, outcome ≠ .completed author)
    (h : p.inboxCurated n mode outcome = .ok (q, effects)) :
    q.state.phase = .blocked ∧ q.state.integration = p.state.integration := by
  simp only [inboxCurated, bind_eq_ok] at h
  obtain ⟨_, -, h⟩ := h
  cases outcome with
  | completed author => exact absurd rfl (hne author)
  | retryableFailure | escalated | riskElevated | completedWithWontFix =>
    obtain ⟨rfl, -⟩ := Prod.mk.inj (Except.ok.inj h)
    exact ⟨rfl, rfl⟩

/-- A stop in `Blocked` with the archive gate set. -/
theorem holds_gated {cmd : ProcessorCommand} {effects : List Effect}
    (hphase : p.state.phase = .cleaning ∨ p.state.phase = .paused)
    (hstand : p.standingReply cmd = none) (hhold : mayHold p.state.phase cmd = true)
    (h : p.dispatch cmd = .ok (q, effects)) :
    q.state.phase = .blocked ∧ q.state.integration = p.state.integration := by
  cases cmd with
  | block reason =>
    obtain ⟨rfl, -⟩ := Prod.mk.inj (Except.ok.inj h)
    exact ⟨rfl, rfl⟩
  | inboxCurated n mode outcome =>
    refine inboxCurated_holds ?_ h
    rintro author rfl
    cases mode <;> simp [mayHold] at hhold
  | taskMerged | mergeResolutionFinalized | integrationVerified | integrationReview | integrationFix
  | publicationReanchorRequired => rcases hphase with hp | hp <;> simp [mayHold, hp] at hhold
  | _ => simp [mayHold] at hhold

theorem archiveCiReconfirmed_passed {head : String} {effects : List Effect}
    (h : p.archiveCiReconfirmed head .passed = .ok (q, effects)) :
    q.state.integration.archiveCiGate = some .confirmed ∧ q.state.tasks = p.state.tasks := by
  simp only [archiveCiReconfirmed, bind_eq_ok] at h
  obtain ⟨_, -, _, -, _, -, _, -, _, -, _, -, _, -, h⟩ := h
  obtain ⟨rfl, -⟩ := Prod.mk.inj (Except.ok.inj h)
  exact ⟨rfl, rfl⟩

/-- A step outside the two conditions leaves a checkpoint that is refused. -/
theorem not_resumable {cmd : ProcessorCommand} (hk : p.course.GateKept)
    (hbreak : p.keepsGate (.apply cmd) = false) (h : p.next (.apply cmd) = some q) :
    ¬Resumable config q := by
  intro hres
  simp only [next, Option.map_eq_some_iff, Prod.exists, exists_and_right, exists_eq_right] at h
  obtain ⟨effects, h⟩ := h
  have h : p.apply cmd = .ok (q, effects) := by
    cases ha : p.apply cmd <;> simp_all [Except.toOption]
  simp only [keepsGate, Bool.or_eq_false_iff, Bool.and_eq_false_iff, Bool.not_eq_false',
    Bool.and_eq_true] at hbreak
  obtain ⟨hstand, hcase⟩ := hbreak
  rcases apply_cases h with ⟨hs, -⟩ | ⟨hnone, more, hd⟩
  · simp [hs] at hstand
  rcases hcase with ⟨hgate, hhold⟩ | hconfirms
  · have hok := hk.gate (by simpa [course, Option.isSome_iff_ne_none] using hgate)
    obtain ⟨hp, hi⟩ := holds_gated (hok.here.imp id And.left) hnone hhold hd
    obtain ⟨⟨hin, -⟩, -⟩ := gate_of_resumable hres (by
      rw [hi]; exact Option.isSome_iff_ne_none.1 hgate)
    simp [hp] at hin
  · unfold confirmsUnpublished at hconfirms
    split at hconfirms
    · obtain ⟨hgate, htasks⟩ := archiveCiReconfirmed_passed hd
      have hno := (gate_of_resumable hres (by simp [hgate])).2
      rw [taskList, htasks] at hno
      simp [taskList, hno] at hconfirms
    · simp at hconfirms

/-- **A checkpoint the engine wrote is one it can resume, and the steps that break this.** -/
theorem checkpoint_resumable (hnew : Processor.new config = .ok p0)
    (hrun : Reach Processor.next (fun p step => p.keepsGate step = true) p0 p) :
    Resumable config p ∧ ∀ step q, step ≠ .restart → p.next step = some q →
      (Resumable config q ↔ p.keepsGate step = true) := by
  obtain ⟨hv, -⟩ := new_spec hnew
  obtain ⟨hs, hconfig, hb, -, hk⟩ := gateKept_of_reach hnew hrun
  refine ⟨resumable_of_kept hs hconfig hv hb hk, fun step q hgo hn => ⟨fun hres => ?_, fun hok => ?_⟩⟩
  · by_contra hbreak
    cases step with
    | apply cmd => exact not_resumable hk (by simpa using hbreak) hn hres
    | acknowledge effect => exact hbreak rfl
    | restart => exact hgo rfl
  · obtain ⟨hs, hconfig, hb, -, hk⟩ := gateKept_of_reach hnew (.step hrun hok hn)
    exact resumable_of_kept hs hconfig hv hb hk

theorem checkpoint_resumable_gated :
    ∃ p : Processor, p.state.integration.archiveCiGate = some .skipped ∧ Resumable {} p := by
  have hrun : (exec (guarded keepsGate Processor.next) fresh
      (cohortOf [] ++ windDown)).any
        (fun p => decide (p.state.integration.archiveCiGate = some .skipped)) = true := by decide +kernel
  obtain ⟨p, hreach, hp⟩ := exec_any hrun
  exact ⟨p, by simpa using hp, (checkpoint_resumable fresh_new hreach).1⟩

/-- An inbox curator that fails after the archive gate leaves a checkpoint that is refused. -/
theorem checkpoint_resumable_broken :
    ¬∀ (config : ProcessorConfig) (p0 p : Processor), Processor.new config = .ok p0 →
      Reach Processor.next (fun _ step => step ≠ .restart) p0 p → Resumable config p := by
  intro hall
  have hrun : (exec (guarded (fun _ step => match step with | .restart => false | _ => true)
      Processor.next) fresh
      (cohortOf [] ++ windDown ++ [.apply (.inboxCurated 0 .finalize (.escalated "no quota"))])).any
        (fun p => p.state.integration.archiveCiGate.isSome && decide (p.state.phase = .blocked)) = true := by
    decide +kernel
  obtain ⟨p, hreach, hp⟩ := exec_any hrun
  simp only [Bool.and_eq_true, decide_eq_true_eq] at hp
  have hres := hall {} fresh p rfl (hreach.mono fun s step h => by rintro rfl; simp at h)
  obtain ⟨⟨hin, -⟩, -⟩ := gate_of_resumable hres (Option.isSome_iff_ne_none.1 hp.1)
  simp [hp.2] at hin

end Processor

end Orchestrail
