import Orchestrail.Proof.RefineRecovery

/-!
# The quiescence barrier

Phases 4, 5 and 6 run with no active task: every forward transition that enters them checks this
first. Phase 0 does not: it returns to phase 4 as soon as one task is ready, or the integration
workspace is prepared, although a sibling may still be active.
-/

namespace Orchestrail

open Steps

namespace Course

variable (c : Course)

/-- The course is in this phase, or returns to it from a pause or a restart. -/
def bound (ph : Phase) : Prop :=
  c.phase = ph ∨
    c.phase = .paused ∧ (c.pausedFrom.getD .recovery = ph ∨
      c.pausedFrom.getD .recovery = .recovery ∧ c.target = some ph) ∨
    c.phase = .recovery ∧ (c.target = some ph ∨ c.target = some .paused ∧ c.pausedFrom = some ph)

/-- Phases 4, 5 and 6. -/
def settled : Phase → Bool
  | .joining | .publishing | .cleaning => true
  | _ => false

def Settles : Prop := ∃ ph, settled ph = true ∧ c.bound ph

/-- **No task is active where the cohort is, or returns to, phase 4, 5 or 6.** -/
structure Quiet : Prop where
  none_active : c.Settles → c.No (·.isActive)
  paused : c.pausedFrom ≠ some .paused

variable {c} {d : Course}

theorem bound_here {ph : Phase} (h : c.phase = ph) : c.bound ph := .inl h

theorem settles_here (h : settled c.phase = true) : c.Settles := ⟨_, h, .inl rfl⟩

/-- In a phase that returns nowhere, the phase itself decides. -/
theorem bound_iff {ph : Phase} (hp : c.phase ≠ .paused) (hr : c.phase ≠ .recovery) :
    c.bound ph ↔ c.phase = ph := by
  simp [bound, hp, hr]

theorem settles_iff (hp : c.phase ≠ .paused) (hr : c.phase ≠ .recovery) :
    c.Settles ↔ settled c.phase = true := by
  simp only [Settles, bound_iff hp hr]
  exact ⟨fun ⟨ph, h, he⟩ => he ▸ h, fun h => ⟨_, h, rfl⟩⟩

/-- Where the course returns to depends on its phases only. -/
theorem bound_congr {ph : Phase} (hp : d.phase = c.phase) (hf : d.pausedFrom = c.pausedFrom)
    (ht : d.target = c.target) : d.bound ph ↔ c.bound ph := by
  simp only [bound, hp, hf, ht]

theorem bound_pause {ph : Phase} (h : ({ c with pausedFrom := some c.phase, phase := .paused } : Course).bound ph)
    (hph : ph ≠ .paused) : c.bound ph := by
  rcases h with h | ⟨-, h | ⟨h, ht⟩⟩ | ⟨h, -⟩
  · exact absurd h.symm hph
  · exact .inl (by simpa using h)
  · exact .inr (.inr ⟨by simpa using h, .inl ht⟩)
  · simp at h

theorem bound_resume {ph : Phase} (hc : c.phase = .paused) (hq : c.pausedFrom ≠ some .paused)
    (h : ({ c with pausedFrom := none, phase := c.pausedFrom.getD .recovery } : Course).bound ph) :
    c.bound ph := by
  rcases h with h | ⟨h, -⟩ | ⟨h, ht | ⟨-, h'⟩⟩
  · exact .inr (.inl ⟨hc, .inl h⟩)
  · refine absurd h ?_
    simp only
    cases hf : c.pausedFrom with
    | none => simp
    | some f => rintro rfl; exact hq hf
  · exact .inr (.inl ⟨hc, .inr ⟨h, ht⟩⟩)
  · simp at h'

theorem bound_restart {ph : Phase}
    (h : ({ c with phase := .recovery, target := some c.phase } : Course).bound ph) (hph : ph ≠ .recovery) :
    c.bound ph := by
  rcases h with h | ⟨h, -⟩ | ⟨-, h | ⟨h, h'⟩⟩
  · exact absurd h.symm hph
  · simp at h
  · exact .inl (Option.some.inj h)
  · refine .inr (.inl ⟨Option.some.inj h, .inl ?_⟩)
    simp only at h'
    simp [h']

/-- Phase 0 returns to the interrupted phase. -/
theorem bound_recover {ph target : Phase} (hc : c.phase = .recovery) (ht : c.target = some target)
    (h : ({ c with phase := target, target := none } : Course).bound ph) (hph : ph ≠ .recovery)
    (hq : target ≠ .recovery) : c.bound ph := by
  rcases h with h | ⟨h, h' | ⟨-, h'⟩⟩ | ⟨h, -⟩
  · exact .inr (.inr ⟨hc, .inl (by rw [ht]; exact congrArg some h)⟩)
  · refine .inr (.inr ⟨hc, .inr ⟨by rw [ht]; exact congrArg some h, ?_⟩⟩)
    simp only at h'
    cases hf : c.pausedFrom with
    | none => simp [hf] at h'; exact absurd h'.symm hph
    | some f => simpa [hf] using h'
  · simp at h'
  · exact absurd h hq

theorem no_of_task_eq {kind : TaskPhase → Bool} (h : d.task = c.task) (hc : c.No kind) : d.No kind := by
  unfold No; rw [h]; exact hc

theorem no_setTask {kind : TaskPhase → Bool} {id : String} {m : Mark} (hm : kind m.phase = false)
    (hc : c.No kind) : (c.setTask id m).No kind := by
  intro k n hn
  simp only [setTask] at hn
  split at hn
  · obtain rfl := Option.some.inj hn; exact hm
  · exact hc k n hn

theorem no_moveAll {kind : TaskPhase → Bool} {s : StringSet} {ph : TaskPhase} (hph : kind ph = false)
    (hc : c.No kind) : (c.moveAll s ph).No kind := by
  intro k n hn
  simp only [moveAll] at hn
  split at hn
  · obtain ⟨m, -, rfl⟩ := Option.map_eq_some_iff.1 hn; exact hph
  · exact hc k n hn

theorem escalateActive_no_active : c.escalateActive.No (·.isActive) := by
  intro k n hn
  obtain ⟨m, -, rfl⟩ := Option.map_eq_some_iff.1 hn
  by_cases ha : m.phase.isActive = true
  · rw [if_pos ha]; rfl
  · rw [if_neg ha]; simpa using ha

theorem not_no (kind : TaskPhase → Bool) {id : String} {m : Mark} (hm : c.task id = some m)
    (hk : kind m.phase = true) : ¬c.No kind := by
  intro hn
  rw [hn id m hm] at hk
  simp at hk

end Course

open Course

/-- The next step of phase 4 moves no task, and stays within phases 4, 5 and 6. -/
theorem Next.frame {c d : Course} (h : Next c d) :
    d.task = c.task ∧ (d.phase = c.phase ∨ d.phase = .cleaning ∨ d.phase = .publishing) ∧
      d.pausedFrom = c.pausedFrom := by
  cases h <;> simp

/-- The phase a task leaves along an `Arrow` is an active one. -/
theorem Arrow.active {phase : Phase} {from_ to_ : TaskPhase} (h : Arrow phase from_ to_) :
    from_.isActive = true := by
  cases h with
  | start | commit | fix => rfl
  | finish h => rcases h with rfl | rfl <;> rfl
  | fail _ _ h => exact h
  | failEarly h => rcases h with rfl | rfl <;> rfl

/-- Phase 0 returns to phase 4 although a task is active: the exit the barrier forbids. -/
def Course.breaksBarrier (c : Course) (ws : StringSet) : Prop :=
  c.phase = .recovery ∧ c.batch.isSome = true ∧ rebuilt c.target = true ∧ (∀ id m, c.task id = some m → m.phase.isActive = true → id ∈ ws) ∧
    (∃ id m, c.task id = some m ∧ m.phase.isActive = true) ∧
    (c.prepared = true ∨ ∃ id, c.In id .ready)

theorem Observed.frame {c d : Course} {cmd : ProcessorCommand} {outcome : CiOutcome}
    (h : Observed c cmd outcome d) :
    settled c.phase = true ∧ d.task = c.task ∧ d.phase = .publishing ∧ d.pausedFrom = c.pausedFrom := by
  cases h with
  | publish hp => simp [hp, settled]
  | archive hp => simp [hp, settled]

/-- Where phase 4 goes next from a quiet phase 4. -/
theorem Next.quiet {c d : Course} (h : Next c d) (hn : c.No (·.isActive)) (hf : c.pausedFrom ≠ some .paused) :
    d.Quiet := by
  obtain ⟨ht, -, hpf⟩ := h.frame
  exact ⟨fun _ => no_of_task_eq ht hn, by rwa [hpf]⟩

theorem Closed.frame {c d : Course} (h : Closed c d) :
    d.task = c.task ∧ d.pausedFrom = c.pausedFrom ∧ (d = c ∨ c.No (·.isActive)) := by
  cases h with
  | wait => exact ⟨rfl, rfl, .inl rfl⟩
  | join hno | clean hno => exact ⟨rfl, rfl, .inr hno⟩

theorem Shift.quiet {config : ProcessorConfig} {c d : Course} {cmd : ProcessorCommand}
    (h : Shift config c cmd d) (hq : c.Quiet) (hok : ∀ ws, cmd = .recover ws → ¬c.breaksBarrier ws) :
    d.Quiet := by
  have hf := hq.paused
  -- a phase that is not settled and returns nowhere asks for nothing
  have hfree : ∀ {e : Course}, e.pausedFrom ≠ some .paused → e.phase ≠ .paused → e.phase ≠ .recovery →
      settled e.phase = false → e.Quiet := fun hf hp hr hs =>
    ⟨fun hset => by rw [settles_iff hp hr, hs] at hset; simp at hset, hf⟩
  -- the same phases, and no new active task
  have hsame : ∀ {e : Course}, e.phase = c.phase → e.pausedFrom = c.pausedFrom → e.target = c.target →
      (c.No (·.isActive) → e.No (·.isActive)) → e.Quiet := by
    intro e hp hpf ht hno
    refine ⟨fun ⟨ph, hph, hb⟩ => hno (hq.none_active ⟨ph, hph, ?_⟩), by rwa [hpf]⟩
    rwa [bound_congr hp hpf ht] at hb
  -- from a settled phase, no task is active
  have hnone : settled c.phase = true → c.No (·.isActive) := fun h => hq.none_active (settles_here h)
  have hactive : ∀ {id m}, c.task id = some m → m.phase.isActive = true → ∀ {e : Course},
      e.phase = c.phase → e.pausedFrom = c.pausedFrom → e.target = c.target → e.Quiet :=
    fun hid hact _ hp hpf ht => hsame hp hpf ht fun hno =>
      absurd hno (not_no (·.isActive) hid hact)
  cases h with
  | stay => exact hq
  | hold => exact hfree hf (by simp) (by simp) rfl
  | pause hp =>
    refine ⟨fun ⟨ph, hph, hb⟩ => ?_, by simpa using hp⟩
    exact hq.none_active ⟨ph, hph, bound_pause hb (by rintro rfl; simp [settled] at hph)⟩
  | resumeStay hp hphase hne =>
    subst hphase
    exact ⟨fun ⟨ph, hph, hb⟩ => hq.none_active ⟨ph, hph, bound_resume hp hf hb⟩, by simp⟩
  | resumeHold => exact hfree (by simp) (by simp) (by simp) rfl
  | resumeJoin hp hfrom hn =>
    have hno : c.No (·.isActive) :=
      hq.none_active ⟨.joining, rfl, .inr (.inl ⟨hp, .inl (by simp [hfrom])⟩)⟩
    exact hn.quiet hno (by simp)
  | recoverHold => exact hfree hf (by simp) (by simp) rfl
  | recoverIdle => exact hfree hf (by simp) (by simp) rfl
  | recoverTo hp hbatch ht hph =>
    refine ⟨fun ⟨ph, hset, hb⟩ => hq.none_active ⟨ph, hset, bound_recover hp ht hb ?_ ?_⟩, hf⟩
    · rintro rfl; simp [settled] at hset
    · rcases hph with rfl | rfl | rfl <;> simp
  | recoverStop => exact hfree hf (by simp) (by simp) rfl
  | recoverJoin hp hbatch hrebuilt hws hready =>
    refine ⟨fun _ => ?_, hf⟩
    intro id m hm
    by_contra hact
    exact hok _ rfl ⟨hp, hbatch, hrebuilt, hws, ⟨id, m, hm, by simpa using hact⟩, hready⟩
  | recoverNext hp hbatch hrebuilt hno hready hn => exact hn.quiet hno hf
  | recoverRoll => exact hfree hf (by simp) (by simp) rfl
  | openCohort => exact hfree hf (by simp) (by simp) rfl
  | admitWave hp => exact hfree hf (by simp [hp]) (by simp [hp]) (by simp [hp, settled])
  | closeWave hp _ _ hcl | advance hp _ _ hcl =>
    obtain ⟨ht, hpf, rfl | hno⟩ := hcl.frame
    · exact hfree hf (by simp [hp]) (by simp [hp]) (by simp [hp, settled])
    · exact ⟨fun _ => no_of_task_eq ht hno, by rwa [hpf]⟩
  | refreshOpen | refreshPost => exact hsame rfl rfl rfl id
  | halt hb hex hcl =>
    obtain ⟨ht, hpf, -⟩ := hcl.frame
    exact ⟨fun _ => no_of_task_eq ht escalateActive_no_active, by rw [hpf]; exact hf⟩
  | task harrow hid => exact hactive hid harrow.active rfl rfl rfl
  | taskReady hp hid => exact hactive hid rfl rfl rfl rfl
  | taskCommitted harrow hid => exact hactive hid rfl rfl rfl rfl
  | workspaceReady hp hn => exact hn.quiet (hnone (by simp [hp, settled])) hf
  | merged hp hid hn | quarantined hp hid hn =>
    exact hn.quiet (no_setTask rfl (hnone (by simp [hp, settled]))) hf
  | needsResolution hp hid => exact hsame rfl rfl rfl (no_setTask rfl)
  | resolved hp hid hres hn | unresolved hp hid hres hcmd hn =>
    exact hn.quiet (no_setTask rfl (hnone (by simp [hp, settled]))) hf
  | verified | reviewed => exact hsame rfl rfl rfl id
  | findings hp hph | fixCommitted hp hph =>
    rcases hph with rfl | rfl
    · exact hsame hp.symm rfl rfl id
    · exact hfree hf (by simp) (by simp) rfl
  | published hp => exact hsame rfl rfl rfl (no_moveAll rfl)
  | rejected hp | reanchored hp =>
    exact ⟨fun _ => no_moveAll rfl (hnone (by simp [hp, settled])), hf⟩
  | reanchorRequired => exact hsame rfl rfl rfl id
  | ciSettled hp => exact ⟨fun _ => hnone (by simp [hp, settled]), hf⟩
  | ciOpen hobs | ciFailed hobs =>
    obtain ⟨hset, ht, -, hpf⟩ := hobs.frame
    exact ⟨fun _ => no_of_task_eq ht (hnone hset), by simpa [hpf] using hf⟩
  | ciGivenUp hobs =>
    obtain ⟨-, -, -, hpf⟩ := hobs.frame
    exact hfree (by simpa [hpf] using hf) (by simp) (by simp) rfl
  | ciHold => exact hfree hf (by simp) (by simp) rfl
  | repaired | skipped | reconfirmed => exact hsame rfl rfl rfl id
  | finished => exact hfree hf (by simp) (by simp) rfl

/-- A recovery that breaks the barrier goes to phase 4 and moves no task. -/
theorem Shift.recover_joins {config : ProcessorConfig} {c d : Course} {ws : StringSet}
    (h : Shift config c (.recover ws) d) (hbreak : c.breaksBarrier ws) :
    d.phase = .joining ∧ d.task = c.task := by
  obtain ⟨hphase, hbatch, hrebuilt, hws, ⟨id, m, hm, hact⟩, hready⟩ := hbreak
  generalize hcmd : ProcessorCommand.recover ws = cmd at h
  cases h with
  | recoverJoin => exact ⟨rfl, rfl⟩
  | recoverHold _ hcase =>
    obtain rfl := ProcessorCommand.recover.inj hcmd
    rcases hcase with ⟨-, ht⟩ | ⟨-, id, m, hm, hact, hws'⟩
    · simp [ht, rebuilt] at hrebuilt
    · exact absurd (hws id m hm hact) hws'
  | recoverIdle _ _ hb => simp [hb] at hbatch
  | recoverTo _ _ ht hph => rcases hph with rfl | rfl | rfl <;> simp [ht, rebuilt] at hrebuilt
  | recoverStop _ _ ht => simp [ht, rebuilt] at hrebuilt
  | recoverNext _ _ _ hno => exact absurd hno (not_no (·.isActive) hm hact)
  | recoverRoll _ _ _ _ hprepared hno =>
    rcases hready with hp | ⟨j, hj⟩
    · simp [hp] at hprepared
    · obtain ⟨n, hn, hnp⟩ := Option.map_eq_some_iff.1 hj
      exact absurd hno (not_no (· = .ready) hn (by simpa using hnp))
  | task harrow _ _ hkind =>
    subst hcmd
    simp [silent] at hkind
  | unresolved _ _ _ hkind => obtain ⟨_, rfl | rfl⟩ := hkind <;> simp at hcmd
  | ciHold _ _ _ hkind => rcases hkind with ⟨_, rfl⟩ | ⟨_, rfl⟩ <;> simp at hcmd
  | ciOpen hobs | ciFailed hobs | ciGivenUp hobs => cases hobs <;> simp at hcmd
  | stay h | hold h => subst hcmd; simp [silent, mayHold] at h
  | halt _ h | taskReady _ _ h => subst hcmd; simp [exhausts, cleanReview] at h
  | _ => simp at hcmd

/-- **Every move keeps the barrier**, unless Phase 0 returns to phase 4 with an active task. -/
theorem Moves.quiet (config : ProcessorConfig) {c d : Course} {step : ProcessorStep}
    (h : Moves config c step d) (hq : c.Quiet)
    (hok : ∀ ws, step = .apply (.recover ws) → ¬c.breaksBarrier ws) : d.Quiet := by
  cases h with
  | stand | noted => exact hq
  | shift _ hshift => exact hshift.quiet hq fun ws hws => hok ws (by rw [hws])
  | journal => exact ⟨hq.none_active, hq.paused⟩
  | restart =>
    refine ⟨fun ⟨ph, hset, hb⟩ => hq.none_active ⟨ph, hset, bound_restart hb ?_⟩, hq.paused⟩
    rintro rfl; simp [settled] at hset

theorem initial_quiet : Course.initial.Quiet :=
  ⟨fun _ => by intro id m hm; simp [Course.initial] at hm, by simp [Course.initial]⟩

namespace Processor

variable {config : ProcessorConfig} {p p0 q : Processor}

/-- Phase 0 can rebuild an interrupted cohort: it has every workspace its active tasks need. -/
def rebuildsCohort (p : Processor) (ws : StringSet) : Bool :=
  decide (p.state.phase = .recovery) && p.state.batch.isSome && rebuilt p.recoveryTarget &&
    p.taskList.all fun task => !task.phase.isActive || ws.contains task.id

/-- Phase 0, asked to recover with these workspaces, returns to phase 4 past an active task. -/
def recoversPastActive (p : Processor) (ws : StringSet) : Bool :=
  p.rebuildsCohort ws && p.anyActive &&
    (p.state.integration.workspacePrepared || p.taskList.any (·.phase = .ready))

/-- The steps that keep the barrier: every step but a recovery past an active task. -/
def keepsBarrier (p : Processor) : ProcessorStep → Bool
  | .apply (.recover ws) => !p.recoversPastActive ws
  | _ => true

/-- In phases 4, 5 and 6 no task is active. -/
def Barrier (p : Processor) : Prop :=
  settled p.state.phase = true →
    ∀ (id : String) (t : TaskRuntime), p.state.tasks[id]? = some t → t.phase.isActive = false

theorem rebuildsCohort_eq_true (hs : Sound p) {ws : StringSet} :
    p.rebuildsCohort ws = true ↔
      p.course.phase = .recovery ∧ p.course.batch.isSome = true ∧ rebuilt p.course.target = true ∧
        ∀ id m, p.course.task id = some m → m.phase.isActive = true → id ∈ ws := by
  rw [rebuildsCohort, Bool.and_eq_true, Bool.and_eq_true, Bool.and_eq_true, all_present hs,
    decide_eq_true_eq, and_assoc, and_assoc]
  simp [course]

theorem recoversPastActive_eq_true (hs : Sound p) {ws : StringSet} :
    p.recoversPastActive ws = true ↔ p.course.breaksBarrier ws := by
  rw [recoversPastActive, Bool.and_eq_true, Bool.and_eq_true, Bool.or_eq_true,
    rebuildsCohort_eq_true hs, anyActive_eq_true, any_phase, Course.breaksBarrier]
  simp only [and_assoc]
  rfl

/-- A course whose quiet is known has the barrier. -/
theorem barrier_of_quiet (h : p.course.Quiet) : p.Barrier := fun hset =>
  no_iff.1 (h.none_active (settles_here hset))

/-- Runs without a recovery past an active task stay quiet. -/
theorem quiet_of_reach (hnew : Processor.new config = .ok p0)
    (hrun : Reach Processor.next (fun p step => p.keepsBarrier step = true) p0 p) :
    Sound p ∧ p.course.Quiet := by
  obtain ⟨-, hs, -, hc⟩ := new_spec hnew
  suffices hstep : ∀ r step d, r.course.Quiet → Sound r → r.keepsBarrier step = true →
      Moves r.config r.course step d → d.Quiet by
    obtain ⟨hs, -, hq⟩ := reach_course (I := Course.Quiet) hrun hs (hc ▸ initial_quiet) hstep
    exact ⟨hs, hq⟩
  intro r step d hq hr hok hm
  refine hm.quiet _ hq fun ws hws hbreak => ?_
  subst hws
  simp [keepsBarrier, (recoversPastActive_eq_true hr).2 hbreak] at hok

/-- A recovery past an active task ends in phase 4 with that task active. -/
theorem recover_breaks {ws : StringSet} (hs : Sound p) (hbreak : p.recoversPastActive ws = true)
    (h : p.next (.apply (.recover ws)) = some q) : ¬q.Barrier := by
  obtain ⟨hphase, hbatch, hrebuilt, hws, ⟨id, m, hm, hact⟩, hready⟩ :=
    (recoversPastActive_eq_true hs).1 hbreak
  have hstands : p.course.stands (.recover ws) = false := by simp [Course.stands, hphase]
  obtain ⟨-, hmove⟩ := next_moves hs h
  obtain ⟨hp, ht⟩ : q.course.phase = .joining ∧ q.course.task = p.course.task := by
    generalize q.course = d at hmove
    cases hmove with
    | stand h => simp [hstands] at h
    | shift _ hshift => exact hshift.recover_joins ⟨hphase, hbatch, hrebuilt, hws, ⟨id, m, hm, hact⟩, hready⟩
  intro hb
  have hset : settled q.state.phase = true := by
    rw [show q.state.phase = .joining from hp]; rfl
  rw [← ht] at hm
  obtain ⟨t, htask, rfl⟩ := Option.map_eq_some_iff.1 hm
  have := hb hset id t htask
  simp_all [TaskRuntime.mark]

/-- **The quiescence barrier, and the one step that breaks it.** -/
theorem quiescence_barrier (hnew : Processor.new config = .ok p0)
    (hrun : Reach Processor.next (fun p step => p.keepsBarrier step = true) p0 p) :
    p.Barrier ∧ ∀ step q, p.next step = some q → (q.Barrier ↔ p.keepsBarrier step = true) := by
  obtain ⟨hs, hq⟩ := quiet_of_reach hnew hrun
  refine ⟨barrier_of_quiet hq, fun step q hn => ⟨fun hb => ?_, fun hok => ?_⟩⟩
  · by_contra hbreak
    cases step with
    | apply cmd =>
      cases cmd with
      | recover ws => exact recover_breaks hs (by simpa [keepsBarrier] using hbreak) hn hb
      | _ => exact hbreak rfl
    | acknowledge effect | restart => exact hbreak rfl
  · exact barrier_of_quiet (quiet_of_reach hnew (.step hrun hok hn)).2

section Sample

/-- A planner proposal for a task of its own directory. -/
def proposal (id domain : String) : AdmissionCandidate := ⟨id, domain, .coder, .low, true, true⟩

/-- A fresh processor with the default configuration. -/
def fresh : Processor := { config := {}, state := {} }

theorem fresh_new : Processor.new {} = .ok fresh := rfl

/-- A cohort with the given tasks in their first wave. -/
def cohortOf (wave : List AdmissionCandidate) : List ProcessorStep :=
  [.apply (.recover ∅), .apply (.openCohort "B-1" "base" 0), .apply (.admitWave wave 0)]

/-- One task from its workspace to a clean review. -/
def reviewed (id tip : String) : List ProcessorStep :=
  [.apply (.workspaceReady id), .apply (.taskLeaf id (.completed none)),
    .apply (.taskCommitted id tip), .apply (.taskReview id (.clean tip))]

end Sample

theorem quiescence_barrier_joining :
    ∃ p : Processor, p.state.phase = .joining ∧ p.taskList ≠ [] ∧ p.Barrier := by
  have hrun : (exec (guarded keepsBarrier Processor.next) fresh
      (cohortOf [proposal "T-1" "a/**"] ++ reviewed "T-1" "c1" ++ [.apply (.admitWave [] 0)])).any
        (fun p => decide (p.state.phase = .joining) && !p.taskList.isEmpty) = true := by decide +kernel
  obtain ⟨p, hreach, hp⟩ := exec_any hrun
  simp only [Bool.and_eq_true, decide_eq_true_eq, Bool.not_eq_true', List.isEmpty_eq_false_iff] at hp
  exact ⟨p, hp.1, hp.2, (quiescence_barrier fresh_new hreach).1⟩

/-- A restart with one ready task and a sibling at work leaves the sibling behind. -/
theorem quiescence_barrier_broken :
    ¬∀ (config : ProcessorConfig) (p0 p : Processor), Processor.new config = .ok p0 →
      Reach Processor.next (fun _ _ => True) p0 p → p.Barrier := by
  intro hall
  have hrun : (exec (guarded (fun _ _ => true) Processor.next) fresh
      (cohortOf [proposal "T-1" "a/**", proposal "T-2" "b/**"] ++ reviewed "T-1" "c1" ++
        [.apply (.workspaceReady "T-2"), .restart,
          .apply (.recover (.ofList ["T-1", "T-2"]))])).any
        (fun p => settled p.state.phase && p.anyActive) = true := by decide +kernel
  obtain ⟨p, hreach, hp⟩ := exec_any hrun
  obtain ⟨hset, hactive⟩ := Bool.and_eq_true_iff.1 hp
  obtain ⟨id, t, ht, hact⟩ := Table.any_vals.1 hactive
  have hfalse := hall {} fresh p rfl (hreach.mono fun _ _ _ => trivial) hset id t ht
  simp [hfalse] at hact

end Processor

end Orchestrail
