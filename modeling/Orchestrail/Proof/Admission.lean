import Orchestrail.Proof.Docking

/-!
# Admission safety

Over whole runs a cohort stays within its slots and its size, every task is admitted once, the tasks
that still block admission keep clear of each other, and a closed admission stays closed.
-/

namespace Orchestrail

open Std Table Steps Course

/-- What a move may do to the admission record: close it, admit a wave, open or end a cohort. -/
inductive Enrolls (config : ProcessorConfig) (c : Course) (step : ProcessorStep) (d : Course) : Prop
  | keep : Closes c.batch d.batch → d.size = c.size →
      (∀ id, (d.task id).isSome = (c.task id).isSome) → Enrolls config c step d
  | enroll {b : CohortRuntime} {n : Nat} : c.batch = some b → b.admissionClosed = none →
      Closes (some (b.withWave n)) d.batch → d.size = c.size + n →
      b.admittedTotal + n ≤ config.cohortSize.toNat → Enrolls config c step d
  | opened {b : CohortRuntime} {base : String} : step = .apply (.openCohort b.id base b.startedAtSecs) →
      d.batch = some b → b.admittedTotal = 0 → d.size = 0 → Enrolls config c step d
  | ended : d.batch = none → Enrolls config c step d

section Course

variable {config : ProcessorConfig} {c d : Course}

theorem isSome_setTask {id : String} {m n : Mark} (h : c.task id = some m) (k : String) :
    ((c.setTask id n).task k).isSome = (c.task k).isSome := by
  simp only [setTask]
  by_cases hk : id = k
  · subst hk; simp [h]
  · simp [hk]

theorem isSome_moveAll {s : StringSet} {ph : TaskPhase} (k : String) :
    ((c.moveAll s ph).task k).isSome = (c.task k).isSome := by
  simp only [moveAll]
  split <;> simp

theorem closes_closedFor {reason : CloseReason} {b : CohortRuntime} :
    Closes (some b) (some (closedFor reason b)) := by
  unfold closedFor
  split
  · rename_i h
    exact .close (by simpa using h)
  · exact .same

theorem Shift.enrolls {cmd : ProcessorCommand} (h : Shift config c cmd d) :
    Enrolls config c (.apply cmd) d := by
  cases h with
  | resumeJoin _ _ hn | recoverNext _ _ _ _ _ hn | workspaceReady _ hn =>
    rw [hn.eq]; exact .keep .same rfl fun _ => rfl
  | openCohort _ _ hzero => exact .opened rfl rfl hzero rfl
  | admitWave hp hb hopen hnd hfresh hfit hcl => exact .enroll hb hopen hcl rfl hfit
  | closeWave _ hcl _ hn | advance _ hcl _ hn => rw [hn.eq]; exact .keep hcl rfl fun _ => rfl
  | halt hb _ hn =>
    rw [hn.eq]
    exact .keep (by rw [hb]; exact closes_closedFor) rfl fun k => by simp [escalateActive]
  | task _ hid => exact .keep .same rfl (isSome_setTask hid)
  | taskReady _ hid => exact .keep .same rfl (isSome_setTask hid)
  | taskCommitted _ hid => exact .keep .same rfl (isSome_setTask hid)
  | merged _ hid hn | quarantined _ hid hn =>
    rw [hn.eq]; exact .keep .same rfl (isSome_setTask hid)
  | needsResolution _ hid => exact .keep .same rfl (isSome_setTask hid)
  | resolved _ hid _ hn | unresolved _ hid _ _ hn =>
    rw [hn.eq]; exact .keep .same rfl (isSome_setTask hid)
  | published | rejected | reanchored => exact .keep .same rfl isSome_moveAll
  | ciOpen hobs | ciFailed hobs | ciGivenUp hobs =>
    cases hobs <;> exact .keep .same rfl fun _ => rfl
  | finished => exact .ended rfl
  | _ => exact .keep .same rfl fun _ => rfl

theorem Moves.enrolls {step : ProcessorStep} (h : Moves config c step d) :
    Enrolls config c step d := by
  cases h with
  | stand | noted | journal | restart => exact .keep .same rfl fun _ => rfl
  | shift _ hshift => exact hshift.enrolls

/-- The batch counts its tasks, within the size of the cohort. -/
def Counted (config : ProcessorConfig) (c : Course) : Prop :=
  ∀ b, c.batch = some b → b.admittedTotal = c.size ∧ b.admittedTotal ≤ config.cohortSize.toNat

theorem Closes.total {x : Option CohortRuntime} {b : CohortRuntime} (h : Closes x (some b)) :
    ∃ a, x = some a ∧ b.admittedTotal = a.admittedTotal ∧ b.id = a.id := by
  cases h with
  | same => exact ⟨b, rfl, rfl, rfl⟩
  | close => exact ⟨_, rfl, rfl, rfl⟩

theorem Enrolls.counted {step : ProcessorStep} (h : Enrolls config c step d) (hc : Counted config c) :
    Counted config d := by
  intro b hb
  cases h with
  | keep hcl hsize _ =>
    rw [hb] at hcl
    obtain ⟨a, ha, htotal, -⟩ := hcl.total
    obtain ⟨h1, h2⟩ := hc a ha
    exact ⟨by rw [htotal, hsize, h1], by rw [htotal]; exact h2⟩
  | @enroll b0 n hb0 _ hcl hsize hfit =>
    rw [hb] at hcl
    obtain ⟨a, ha, htotal, -⟩ := hcl.total
    obtain rfl := Option.some.inj ha
    obtain ⟨h1, -⟩ := hc b0 hb0
    have hwave : (b0.withWave n).admittedTotal = b0.admittedTotal + n := rfl
    exact ⟨by rw [htotal, hwave, hsize, h1], by rw [htotal, hwave]; exact hfit⟩
  | opened _ hb' hzero hsize =>
    obtain rfl := Option.some.inj (hb.symm.trans hb')
    exact ⟨by rw [hzero, hsize], by rw [hzero]; exact Nat.zero_le _⟩
  | ended hnone => rw [hb] at hnone; cases hnone

end Course

namespace Processor

variable {p q : Processor}

/-- No two tasks whose work is not yet published share a domain. -/
def Apart (p : Processor) : Prop :=
  ∀ (i j : String) (t u : TaskRuntime), p.state.tasks[i]? = some t → p.state.tasks[j]? = some u →
    i ≠ j → t.phase.rank < 8 → u.phase.rank < 8 →
    (Domain.parse t.conflictDomain).intersects (Domain.parse u.conflictDomain) = false

def activeIds (p : Processor) : List String := (p.taskList.filter (·.phase.isActive)).map (·.id)

/-- Published work does not come back. -/
theorem Evolves.held {limit : Nat} {t u : TaskRuntime} (h : Evolves limit t u)
    (hu : u.phase.rank < 8) : t.phase.rank < 8 := by
  cases h.turned with
  | still hp => rw [← hp]; exact hu
  | onward hrank => omega
  | review ht => rw [ht]; decide
  | reopened ht => rw [ht]; decide

/-- Only an admission makes a task active. -/
theorem Evolves.active {limit : Nat} {t u : TaskRuntime} (h : Evolves limit t u)
    (hu : u.phase.isActive = true) : t.phase.isActive = true := by
  cases h.turned with
  | still hp => rw [← hp]; exact hu
  | onward hrank =>
    have := TaskPhase.active_iff_rank.1 hu
    exact TaskPhase.active_iff_rank.2 (by omega)
  | review ht => rw [ht]; rfl
  | reopened ht hu' => rw [hu'] at hu; cases hu

theorem mem_activeIds (hk : Keyed p.state.tasks) {id : String} :
    id ∈ p.activeIds ↔ ∃ t, p.state.tasks[id]? = some t ∧ t.phase.isActive = true := by
  simp only [activeIds, List.mem_map, List.mem_filter, taskList, mem_vals]
  constructor
  · rintro ⟨t, ⟨⟨k, hk'⟩, hact⟩, rfl⟩
    exact ⟨t, (hk k t hk').symm ▸ hk', hact⟩
  · rintro ⟨t, ht, hact⟩
    exact ⟨t, ⟨⟨id, ht⟩, hact⟩, hk id t ht⟩

/-- What a step of the reducer does to the tasks: it evolves them, or admits a wave. -/
theorem next_tasks {step : ProcessorStep} (hs : Sound p) (h : p.next step = some q) :
    Frame p.config.reviewLoopMax.toNat p.state.tasks q.state.tasks ∨
      ∃ selected effects, p.Wave selected (q, effects) := by
  cases step with
  | apply cmd =>
    simp only [next, Option.map_eq_some_iff, Prod.exists, exists_and_right, exists_eq_right] at h
    obtain ⟨effects, h⟩ := h
    have h : p.apply cmd = .ok (q, effects) := by
      cases ha : p.apply cmd <;> simp_all [Except.toOption]
    rcases apply_cases h with ⟨-, rfl⟩ | ⟨-, more, hd⟩
    · exact .inl .refl
    by_cases hcmd : ∃ candidates now, cmd = .admitWave candidates now
    · obtain ⟨candidates, now, rfl⟩ := hcmd
      rcases admitWave_report hs _ hd with hr | ⟨selected, hw⟩
      · exact .inl hr.frame
      · exact .inr ⟨selected, more, hw⟩
    · exact .inl (dispatch_report hs (fun candidates now h => hcmd ⟨candidates, now, h⟩) _ hd).frame
  | acknowledge effect =>
    have h : p.acknowledgeNonCommandEffect effect = .ok q := by
      cases ha : p.acknowledgeNonCommandEffect effect <;> simp_all [next, Except.toOption]
    rcases acknowledge_spec hs h with rfl | ⟨rfl, -, rfl⟩ <;> exact .inl .refl
  | restart =>
    have h : fromCheckpoint p.config p.state = .ok q := by
      cases ha : fromCheckpoint p.config p.state <;> simp_all [next, Except.toOption]
    obtain rfl := fromCheckpoint_eq h
    exact .inl .refl

theorem apart_of_frame {limit : Nat} (hp : p.Apart)
    (h : Frame limit p.state.tasks q.state.tasks) : q.Apart := by
  intro i j t u ht hu hne hrt hru
  obtain ⟨t', ht', het⟩ := h i t ht
  obtain ⟨u', hu', heu⟩ := h j u hu
  rw [het.domain, heu.domain]
  exact hp i j t' u' ht' hu' hne (Evolves.held het hrt) (Evolves.held heu hru)

theorem slots_of_frame {limit : Nat} (hk : Keyed p.state.tasks) (hk' : Keyed q.state.tasks)
    (h : Frame limit p.state.tasks q.state.tasks) : q.activeIds.length ≤ p.activeIds.length := by
  refine (List.Nodup.subperm (nodup_activeIds hk') fun id hid => ?_).length_le
  obtain ⟨u, hu, hact⟩ := (mem_activeIds hk').1 hid
  obtain ⟨t, ht, hev⟩ := h id u hu
  exact (mem_activeIds hk).2 ⟨t, ht, Evolves.active hev hact⟩

/-- Unpublished work blocks admission, unless it is merged. -/
theorem blocks_of_rank {ph : TaskPhase} (h : ph.rank < 8) (hm : ph ≠ .merged) :
    ∃ cls, ph.blocksAdmission = some cls := by
  cases ph with
  | merged => exact absurd rfl hm
  | published | done => simp [TaskPhase.rank] at h
  | _ => exact ⟨_, rfl⟩

variable {selected : List AdmissionCandidate} {effects : List Effect}

theorem apart_of_wave (hp : p.Apart) (hno : p.course.No (· = .merged))
    (h : p.Wave selected (q, effects)) : q.Apart := by
  obtain ⟨wave, hadmitted⟩ := h.admitted
  -- a task of the wave against one that was there
  have hcross : ∀ c ∈ selected, ∀ (j : String) (u : TaskRuntime), p.state.tasks[j]? = some u →
      u.phase.rank < 8 →
      (Domain.parse u.conflictDomain).intersects (Domain.parse c.conflictDomain) = false := by
    intro c hc j u hu hrank
    have hnm : u.phase ≠ .merged := by
      have := no_iff.1 hno j u hu
      simpa using this
    obtain ⟨cls, hcls⟩ := blocks_of_rank hrank hnm
    refine h.clear c hc ⟨Domain.parse u.conflictDomain, cls⟩ ?_
    simp only [activeTasks, List.mem_filterMap, taskList, mem_vals, Option.map_eq_some_iff]
    exact ⟨u, ⟨j, hu⟩, cls, hcls, rfl⟩
  intro i j t u ht hu hne hrt hru
  by_cases hi : i ∈ selected.map (·.id)
  · obtain ⟨c, hc, rfl⟩ := List.mem_map.1 hi
    obtain rfl := Option.some.inj ((hadmitted c hc).symm.trans ht)
    by_cases hj : j ∈ selected.map (·.id)
    · obtain ⟨d, hd, rfl⟩ := List.mem_map.1 hj
      obtain rfl := Option.some.inj ((hadmitted d hd).symm.trans hu)
      exact h.apart c hc d hd hne
    · rw [h.kept j hj] at hu
      exact (Domain.intersects_comm _ _).trans (hcross c hc j u hu hru)
  · rw [h.kept i hi] at ht
    by_cases hj : j ∈ selected.map (·.id)
    · obtain ⟨d, hd, rfl⟩ := List.mem_map.1 hj
      obtain rfl := Option.some.inj ((hadmitted d hd).symm.trans hu)
      exact hcross d hd i t ht hrt
    · rw [h.kept j hj] at hu
      exact hp i j t u ht hu hne hrt hru

/-- A wave fills free slots only. -/
theorem slots_of_wave (hk : Keyed p.state.tasks) (hk' : Keyed q.state.tasks)
    (h : p.Wave selected (q, effects)) :
    q.activeIds.length ≤ p.activeIds.length + selected.length := by
  have hsub : q.activeIds ⊆ p.activeIds ++ selected.map (·.id) := by
    intro id hid
    by_cases hin : id ∈ selected.map (·.id)
    · exact List.mem_append_right _ hin
    · obtain ⟨u, hu, hact⟩ := (mem_activeIds hk').1 hid
      rw [h.kept id hin] at hu
      exact List.mem_append_left _ ((mem_activeIds hk).2 ⟨u, hu, hact⟩)
  have hle : q.activeIds.length ≤ (p.activeIds ++ selected.map (·.id)).length :=
    (List.Nodup.subperm (nodup_activeIds hk') hsub).length_le
  rwa [List.length_append, List.length_map] at hle

/-- **The admission record of a cohort is safe.** -/
structure AdmissionSafe (p : Processor) : Prop where
  slots : (p.taskList.filter (·.phase.isActive)).length ≤ p.config.maxParallel
  total : ∀ b, p.state.batch = some b →
    b.admittedTotal = p.taskList.length ∧ b.admittedTotal ≤ p.config.cohortSize.toNat
  once : (p.taskList.map (·.id)).Nodup
  apart : ∀ t ∈ p.taskList, ∀ u ∈ p.taskList, t.id ≠ u.id → t.phase.blocksAdmission.isSome →
    u.phase.blocksAdmission.isSome →
    (Domain.parse t.conflictDomain).intersects (Domain.parse u.conflictDomain) = false

/-- What is kept along a run, besides the coupling of the ledger. -/
structure Berthed (p : Processor) : Prop where
  slots : p.activeIds.length ≤ p.config.maxParallel
  counted : Counted p.config p.course
  apart : p.Apart

theorem Berthed.step {step : ProcessorStep} (hb : p.Berthed) (hs : Sound p)
    (hd : p.course.Docked) (h : p.next step = some q) : q.Berthed := by
  obtain ⟨hkeep, hm⟩ := next_moves hs h
  refine ⟨?_, by rw [hkeep.config]; exact hm.enrolls.counted hb.counted, ?_⟩
  · rw [hkeep.config]
    rcases next_tasks hs h with hf | ⟨selected, effects, hw⟩
    · exact (slots_of_frame (keyed hs) (keyed hkeep.sound) hf).trans hb.slots
    · have hle := slots_of_wave (keyed hs) (keyed hkeep.sound) hw
      have hfit := hw.fits
      have hact : p.activeIds.length = (p.taskList.filter (·.phase.isActive)).length := by
        simp [activeIds]
      have := hb.slots
      unfold freeSlots at hfit
      omega
  · rcases next_tasks hs h with hf | ⟨selected, effects, hw⟩
    · exact apart_of_frame hb.apart hf
    · exact apart_of_wave hb.apart (hd.rolling (bound_here hw.rolling)) hw

theorem Berthed.safe (hb : p.Berthed) (hs : Sound p) : p.AdmissionSafe := by
  refine ⟨by simpa [activeIds] using hb.slots, fun b hbatch => ?_, ?_, ?_⟩
  · obtain ⟨h1, h2⟩ := hb.counted b.erased (by simp [course, hbatch])
    exact ⟨by rw [taskList_length]; exact h1, h2⟩
  · have := nodup_keyed (keyed hs) fun _ => true
    simpa [taskList] using this
  · intro t ht u hu hne hbt hbu
    obtain ⟨i, hi⟩ := mem_vals.1 ht
    obtain ⟨j, hj⟩ := mem_vals.1 hu
    have hrank : ∀ ph : TaskPhase, ph.blocksAdmission.isSome = true → ph.rank < 8 := by
      intro ph h
      cases ph <;> first | decide | cases h
    refine hb.apart i j t u hi hj ?_ (hrank _ hbt) (hrank _ hbu)
    rw [← keyed hs i t hi, ← keyed hs j u hj]
    exact hne

end Processor

namespace ProcessorRuntime

variable {eventId : String → String} {config : ProcessorConfig} {r0 r s : ProcessorRuntime}

theorem berthed_of_reach (hnew : new config = .ok r0)
    (h : Reach (next eventId) (fun _ _ => True) r0 r) : r.Sailing ∧ r.processor.Berthed := by
  refine h.invariant (I := fun r => r.Sailing ∧ r.processor.Berthed) ?_ ?_
  · obtain ⟨hp, -, -⟩ := new_reducer hnew
    obtain ⟨hv, hs, -, hc⟩ := Processor.new_spec hp
    have hempty : r0.processor.state.tasks = ∅ := by
      simp only [Processor.new, bind_eq_ok] at hp
      obtain ⟨_, -, hp⟩ := hp
      rw [← Except.ok.inj hp]
    refine ⟨new_sailing hnew, ?_, fun b hb => ?_, fun i j t u ht => ?_⟩
    · have hnil : r0.processor.activeIds = [] := by
        refine List.eq_nil_iff_forall_not_mem.2 fun id hid => ?_
        obtain ⟨t, ht, -⟩ := (Processor.mem_activeIds (Processor.keyed hs)).1 hid
        simp [hempty] at ht
      rw [hnil]
      exact Nat.zero_le _
    · rw [hc] at hb
      cases hb
    · rw [hempty] at ht
      simp at ht
  · rintro t step u ⟨hsail, hb⟩ - hn
    refine ⟨hsail.step hn, ?_⟩
    have hmove := next_reducer hn
    cases hstep : t.reducerStep step with
    | none => rw [hstep] at hmove; exact hmove ▸ hb
    | some move => rw [hstep] at hmove; exact hb.step hsail.sound hsail.docked hmove

/-- The step opens a cohort. -/
def opens : RuntimeStep → Bool
  | .apply (.openCohort ..) _ => true
  | _ => false

/-- A closed admission, as long as no other cohort is opened: the cohort is over, or it is the same,
closed for the same reason, with no further task. -/
def StaysClosed (r : ProcessorRuntime) (b : CohortRuntime) (s : ProcessorRuntime) : Prop :=
  s.processor.state.batch = none ∨
    ∃ b', s.processor.state.batch = some b' ∧ b'.id = b.id ∧
      b'.admissionClosed = b.admissionClosed ∧
        ∀ id, id ∈ s.processor.state.tasks ↔ id ∈ r.processor.state.tasks

theorem batch_none (h : r.processor.course.batch = none) : r.processor.state.batch = none := by
  simpa [Processor.course] using h

theorem mem_tasks_iff {id : String} :
    id ∈ r.processor.state.tasks ↔ (r.processor.course.task id).isSome = true := by
  rw [ExtTreeMap.mem_iff_isSome_getElem?]
  simp [Processor.course]

theorem closes_none {x : Option CohortRuntime} (h : Closes none x) : x = none := by
  cases h; rfl

theorem closes_some {a : CohortRuntime} {x : Option CohortRuntime} (h : Closes (some a) x)
    (hclosed : a.admissionClosed ≠ none) :
    ∃ b, x = some b ∧ b.id = a.id ∧ b.admissionClosed = a.admissionClosed := by
  cases h with
  | same => exact ⟨a, rfl, rfl, rfl⟩
  | close hopen => exact absurd hopen hclosed

theorem staysClosed_of_reach {b : CohortRuntime} (hs : Sound r.processor)
    (hb : r.processor.state.batch = some b) (hclosed : b.admissionClosed ≠ none)
    (h : Reach (next eventId) (fun _ step => opens step = false) r s) : Sound s.processor ∧ r.StaysClosed b s := by
  refine h.invariant (I := fun s => Sound s.processor ∧ r.StaysClosed b s)
    ⟨hs, .inr ⟨b, hb, rfl, rfl, fun _ => Iff.rfl⟩⟩ ?_
  rintro t step u ⟨ht, hstay⟩ hok hn
  have hmove := next_reducer hn
  cases hstep : t.reducerStep step with
  | none =>
    rw [hstep] at hmove
    obtain hmove : u.processor = t.processor := hmove
    unfold StaysClosed
    rw [hmove]
    exact ⟨ht, hstay⟩
  | some move =>
    rw [hstep] at hmove
    obtain ⟨hkeep, hm⟩ := Processor.next_moves ht hmove
    refine ⟨hkeep.sound, ?_⟩
    have hnone : t.processor.course.batch = none ∨ ∃ b', t.processor.state.batch = some b' ∧
        b'.id = b.id ∧ b'.admissionClosed = b.admissionClosed ∧
          ∀ id, id ∈ t.processor.state.tasks ↔ id ∈ r.processor.state.tasks :=
      hstay.imp_left fun h => by simp [Processor.course, h]
    cases hm.enrolls with
    | keep hcl _ hsome =>
      rcases hnone with hnone | ⟨b', hb', hid, hsame, htasks⟩
      · rw [hnone] at hcl
        left
        exact batch_none (closes_none hcl)
      · have hcb : t.processor.course.batch = some b'.erased := by simp [Processor.course, hb']
        rw [hcb] at hcl
        obtain ⟨b'', hb'', hid', hsame'⟩ := closes_some hcl (by rw [← hsame] at hclosed; exact hclosed)
        obtain ⟨b3, hb3, herased⟩ := Option.map_eq_some_iff.1 (show u.processor.state.batch.map
          (·.erased) = some b'' from hb'')
        refine .inr ⟨b3, hb3, ?_, ?_, fun id => ?_⟩
        · rw [← hid]; exact (congrArg (·.id) herased).trans hid'
        · rw [← hsame]; exact (congrArg (·.admissionClosed) herased).trans hsame'
        · rw [← htasks id, mem_tasks_iff, mem_tasks_iff, hsome id]
    | enroll hbatch hopen =>
      rcases hnone with hnone | ⟨b', hb', -, hsame, -⟩
      · rw [hnone] at hbatch; cases hbatch
      · obtain rfl : b'.erased = _ := Option.some.inj
          (show t.processor.course.batch = some b'.erased by simp [Processor.course, hb'] |>.symm.trans hbatch)
        rw [← hsame] at hclosed
        exact absurd hopen hclosed
    | opened heq =>
      cases step with
      | apply cmd now =>
        obtain rfl := ProcessorStep.apply.inj ((Option.some.inj hstep).trans heq)
        cases hok
      | complete key =>
        simp only [reducerStep, Option.map_eq_some_iff] at hstep
        obtain ⟨_, -, hstep⟩ := hstep
        rw [← hstep] at heq
        cases heq
      | resume =>
        obtain rfl := Option.some.inj hstep
        cases heq
      | appendOnly | supersede => cases hstep
    | ended hend => exact .inl (batch_none hend)

/-- **Admission is safe in every reachable state**, and once closed it stays closed. -/
theorem admission_safe (hnew : new config = .ok r0)
    (h : Reach (next eventId) (fun _ _ => True) r0 r) :
    r.processor.AdmissionSafe ∧
      ∀ b s, r.processor.state.batch = some b → b.admissionClosed ≠ none →
        Reach (next eventId) (fun _ step => opens step = false) r s → r.StaysClosed b s := by
  obtain ⟨hsail, hb⟩ := berthed_of_reach hnew h
  exact ⟨hb.safe hsail.sound, fun b s hbatch hclosed hreach =>
    (staysClosed_of_reach hsail.sound hbatch hclosed hreach).2⟩

/-- Two tasks admitted together; admission closes with the queue and one of them is merged. -/
theorem admission_safe_merged :
    ∃ (r s : ProcessorRuntime) (b : CohortRuntime), r.processor.AdmissionSafe ∧
      r.processor.state.batch = some b ∧ b.admissionClosed = some .queueEmpty ∧
        s.processor.state.integration.mergedTasks.contains "T-1" = true ∧ r.StaysClosed b s := by
  have hrun : (exec (guarded (fun _ _ => true) (next id)) freshRuntime
      (admitted [Processor.proposal "T-1" "a/**", Processor.proposal "T-2" "b/**"] ++
        readied "T-1" "c1" ++ readied "T-2" "c2" ++ joined)).any
      (fun r => r.processor.state.batch.any (fun b => decide (b.admissionClosed = some .queueEmpty)) &&
        (exec (guarded (fun _ step => !opens step) (next id)) r
          (applied [.taskMerged "T-1" (.merged "m1")])).any
            fun s => s.processor.state.integration.mergedTasks.contains "T-1") = true := by
    decide +kernel
  obtain ⟨r, hreach, hp⟩ := exec_any hrun
  simp only [Bool.and_eq_true, Option.any_eq_true, decide_eq_true_eq] at hp
  obtain ⟨⟨b, hb, hclosed⟩, hmore⟩ := hp
  obtain ⟨s, hreach', hmerged⟩ := exec_any ((Option.any_eq_true _ _).2 hmore)
  have hnew : new {} = .ok freshRuntime := rfl
  obtain ⟨hsafe, hstay⟩ := admission_safe hnew (hreach.mono fun _ _ _ => trivial)
  refine ⟨r, s, b, hsafe, hb, hclosed, hmerged, hstay b s hb (by simp [hclosed]) ?_⟩
  exact hreach'.mono fun _ _ h => by simpa using h

end ProcessorRuntime

end Orchestrail
