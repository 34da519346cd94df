import Orchestrail.Proof.Quiescence
import Orchestrail.Spec.Projector

/-!
# The accounting of a cohort

Phase 6 closes a cohort whatever its tasks are doing: it archives the published ones and counts the
finished ones. So every task must be finished before phase 6 is entered.
-/

namespace Orchestrail

open Steps

/-- Tasks whose merge is still due. -/
def TaskPhase.isUnmerged : TaskPhase → Bool
  | .ready | .resolvingMerge => true
  | _ => false

namespace Course

variable (c : Course)

/-- **No task is left behind where the cohort is, or returns to, phase 5 or 6.** -/
structure Tally : Prop where
  quiet : c.Quiet
  rolling : c.bound .rolling → c.No (· = .resolvingMerge)
  past : c.bound .publishing ∨ c.bound .cleaning → c.No (·.isUnmerged)
  resolving : ∀ id, c.In id .resolvingMerge → c.resolving = some id
  total : ∀ b, c.batch = some b → b.admittedTotal = c.size

/-- A halt that would leave for phase 6 in the middle of a merge resolution. -/
def haltsInResolution : Prop := (∃ id, c.In id .resolvingMerge) ∧ c.No (· = .ready)

/-- Phase 0 would return to phase 2 in the middle of a merge resolution. -/
def rollsInResolution (ws : StringSet) : Prop :=
  c.phase = .recovery ∧ c.batch.isSome = true ∧ rebuilt c.target = true ∧
    (∀ id m, c.task id = some m → m.phase.isActive = true → id ∈ ws) ∧
    c.prepared = false ∧ c.haltsInResolution

variable {c} {d : Course}

theorem no_resolving_of_unmerged (h : c.No (·.isUnmerged)) : c.No (· = .resolvingMerge) := by
  intro id m hm
  have := h id m hm
  cases hp : m.phase <;> simp_all [TaskPhase.isUnmerged]

theorem no_unmerged (hr : c.No (· = .ready)) (hm : c.No (· = .resolvingMerge)) :
    c.No (·.isUnmerged) := by
  intro id m hm'
  have h1 := hr id m hm'
  have h2 := hm id m hm'
  cases hp : m.phase <;> simp_all [TaskPhase.isUnmerged]

theorem no_iff_not_in {ph : TaskPhase} : c.No (· = ph) ↔ ∀ id, ¬c.In id ph := by
  constructor
  · intro h id hid
    obtain ⟨m, hm, hp⟩ := Option.map_eq_some_iff.1 hid
    simpa [hp] using h id m hm
  · intro h id m hm
    have := h id
    simp only [In, hm, Option.map_some] at this
    simpa using this

theorem in_setTask {id k : String} {m : Mark} {ph : TaskPhase} :
    (c.setTask id m).In k ph ↔ (id = k ∧ m.phase = ph) ∨ (id ≠ k ∧ c.In k ph) := by
  simp only [In, setTask]
  by_cases hk : id = k <;> simp [hk]

theorem in_moveAll {s : StringSet} {k : String} {to_ ph : TaskPhase} :
    (c.moveAll s to_).In k ph ↔ (k ∈ s ∧ (c.task k).isSome = true ∧ to_ = ph) ∨ (k ∉ s ∧ c.In k ph) := by
  simp only [In, moveAll]
  by_cases hk : k ∈ s
  · cases c.task k <;> simp [hk]
  · simp [hk]

theorem in_congr (h : d.task = c.task) {id : String} {ph : TaskPhase} : d.In id ph ↔ c.In id ph := by
  simp only [In, h]

theorem in_escalateActive {k : String} {ph : TaskPhase} (hph : ph.isActive = false)
    (hne : ph ≠ .escalated) : c.escalateActive.In k ph ↔ c.In k ph := by
  simp only [In, escalateActive]
  cases c.task k with
  | none => simp
  | some m =>
    by_cases ha : m.phase.isActive = true
    · simp only [Option.map_some, if_pos ha, Option.some.injEq]
      constructor
      · intro h; exact absurd h.symm hne
      · rintro rfl; simp [ha] at hph
    · simp [ha]

theorem no_escalateActive {kind : TaskPhase → Bool} (hk : kind .escalated = false) (hc : c.No kind) :
    c.escalateActive.No kind := by
  intro k n hn
  obtain ⟨m, hm, rfl⟩ := Option.map_eq_some_iff.1 hn
  by_cases ha : m.phase.isActive = true
  · rw [if_pos ha]; exact hk
  · rw [if_neg ha]; exact hc k m hm

end Course

open Course

/-- A result of phase 2 leaves no task due for a merge. -/
theorem Arrow.lands {phase : Phase} {from_ to_ : TaskPhase} (h : Arrow phase from_ to_) :
    to_.isUnmerged = false ∧ to_ ≠ .resolvingMerge ∧ to_ ≠ .published ∧ to_ ≠ .merged ∧ to_ ≠ .ready := by
  cases h <;> simp [TaskPhase.isUnmerged]

theorem Closes.admitted {x y : Option CohortRuntime} (h : Closes x y) :
    y.map (·.admittedTotal) = x.map (·.admittedTotal) := by
  cases h <;> rfl

/-- The admitted total of a batch, in the form the moves keep it. -/
theorem total_iff {c : Course} :
    (∀ b, c.batch = some b → b.admittedTotal = c.size) ↔
      ∀ n, c.batch.map (·.admittedTotal) = some n → n = c.size := by
  cases c.batch <;> simp

theorem closedFor_admitted {reason : CloseReason} {b : CohortRuntime} :
    (closedFor reason b).admittedTotal = b.admittedTotal := by
  unfold closedFor; split <;> rfl

/-- Where phase 4 goes next from a phase 4 without active tasks. -/
theorem Next.tally {c d : Course} (h : Next c d) (hp : c.phase = .joining) (hn : c.No (·.isActive))
    (hf : c.pausedFrom ≠ some .paused) (hres : ∀ id, c.In id .resolvingMerge → c.resolving = some id)
    (htot : ∀ b, c.batch = some b → b.admittedTotal = c.size) : d.Tally := by
  have hq := h.quiet hn hf
  -- phase 4 itself asks for the link only
  have hhere : ∀ ph, ph ≠ .joining → ¬c.bound ph := by
    intro ph hph
    rw [bound_iff (by simp [hp]) (by simp [hp]), hp]
    exact fun h => hph h.symm
  have hstay : c.Quiet → c.Tally := fun hq =>
    ⟨hq, fun h => absurd h (hhere _ (by simp)),
      fun h => h.elim (fun h => absurd h (hhere _ (by simp))) (fun h => absurd h (hhere _ (by simp))),
      hres, htot⟩
  have hleave : c.resolving = none → c.No (· = .ready) → c.No (·.isUnmerged) := fun hnone hready =>
    no_unmerged hready (no_iff_not_in.2 fun id hid => by simp [hres id hid] at hnone)
  cases h with
  | unprepared | resolve | merge => exact hstay hq
  | clean _ hnone hready | review _ hnone hready =>
    refine ⟨hq, fun h => ?_, fun _ => hleave hnone hready, hres, htot⟩
    rw [bound_iff (by simp) (by simp)] at h
    simp at h

/-- Where a cohort with closed admission goes, once no task is active. -/
theorem Closed.tally {c d : Course} (h : Closed c d) (hn : c.No (·.isActive))
    (hf : c.pausedFrom ≠ some .paused) (hhalt : c.No (· = .ready) → c.No (· = .resolvingMerge))
    (hres : ∀ id, c.In id .resolvingMerge → c.resolving = some id)
    (htot : ∀ b, c.batch = some b → b.admittedTotal = c.size) : d.Tally := by
  cases h with
  | wait hid hact => exact absurd hn (not_no (·.isActive) hid hact)
  | join =>
    refine ⟨⟨fun _ => no_of_task_eq rfl hn, hf⟩, fun h => ?_, fun h => ?_, hres, htot⟩
    · rw [bound_iff (by simp) (by simp)] at h; simp at h
    · rw [bound_iff (by simp) (by simp), bound_iff (by simp) (by simp)] at h; simp at h
  | clean _ hready =>
    refine ⟨⟨fun _ => no_of_task_eq rfl hn, hf⟩, fun h => ?_, fun _ => ?_, hres, htot⟩
    · rw [bound_iff (by simp) (by simp)] at h; simp at h
    · exact no_unmerged hready (hhalt hready)

theorem Shift.tally {config : ProcessorConfig} {c d : Course} {cmd : ProcessorCommand}
    (h : Shift config c cmd d) (ht : c.Tally)
    (hbar : ∀ ws, cmd = .recover ws → ¬c.breaksBarrier ws)
    (hroll : ∀ ws, cmd = .recover ws → ¬c.rollsInResolution ws)
    (hhalt : exhausts config c.batch cmd = true → ¬c.haltsInResolution) : d.Tally := by
  have hq := h.quiet ht.quiet hbar
  have hf := ht.quiet.paused
  have hres := ht.resolving
  have htot := ht.total
  -- phases that ask for the link and the total only
  have hfree : ∀ {e : Course}, e.Quiet → e.phase ≠ .paused → e.phase ≠ .recovery → e.phase ≠ .rolling →
      e.phase ≠ .publishing → e.phase ≠ .cleaning →
      (∀ id, e.In id .resolvingMerge → e.resolving = some id) →
      (∀ b, e.batch = some b → b.admittedTotal = e.size) → e.Tally := by
    intro e hq hp hr hro hpu hcl hres htot
    refine ⟨hq, fun h => ?_, fun h => ?_, hres, htot⟩
    · exact absurd ((bound_iff hp hr).1 h) hro
    · rcases h with h | h
      exacts [absurd ((bound_iff hp hr).1 h) hpu, absurd ((bound_iff hp hr).1 h) hcl]
  -- the same phases and no new task due for a merge
  have hsame : ∀ {e : Course}, e.Quiet → e.phase = c.phase → e.pausedFrom = c.pausedFrom →
      e.target = c.target → (c.No (· = .resolvingMerge) → e.No (· = .resolvingMerge)) →
      (c.No (·.isUnmerged) → e.No (·.isUnmerged)) →
      (∀ id, e.In id .resolvingMerge → e.resolving = some id) →
      (∀ b, e.batch = some b → b.admittedTotal = e.size) → e.Tally := by
    intro e hq hp hpf hta hn1 hn2 hres htot
    refine ⟨hq, fun h => hn1 (ht.rolling ?_), fun h => hn2 (ht.past ?_), hres, htot⟩
    · rwa [bound_congr hp hpf hta] at h
    · rwa [bound_congr hp hpf hta, bound_congr hp hpf hta] at h
  have hjoin : c.phase = .joining → c.No (·.isActive) := fun hp =>
    ht.quiet.none_active (settles_here (by simp [hp, settled]))
  -- from phases 5 and 6 nothing is due
  have hdue : c.phase = .publishing ∨ c.phase = .cleaning → c.No (·.isUnmerged) := fun hp =>
    ht.past (hp.imp bound_here bound_here)
  have hlate : ∀ {e : Course}, e.Quiet → e.phase = .publishing ∨ e.phase = .cleaning →
      e.No (·.isUnmerged) → (∀ b, e.batch = some b → b.admittedTotal = e.size) → e.Tally := by
    intro e hq hp hno htot
    refine ⟨hq, fun _ => no_resolving_of_unmerged hno, fun _ => hno, fun id hid => ?_, htot⟩
    exact absurd hid (no_iff_not_in.1 (no_resolving_of_unmerged hno) id)
  have hset : ∀ {id : String} {m : Mark}, m.phase ≠ .resolvingMerge → ∀ k,
      (c.setTask id m).In k .resolvingMerge → c.resolving = some k := by
    intro id m hm k hk
    rcases in_setTask.1 hk with ⟨-, h⟩ | ⟨-, h⟩
    exacts [absurd h hm, hres k h]
  have hsetUnmerged : ∀ {id : String} {m : Mark}, m.phase.isUnmerged = false →
      (c.No (·.isUnmerged) → (c.setTask id m).No (·.isUnmerged)) := fun hm => no_setTask hm
  cases h with
  | stay => exact ht
  | hold | recoverHold | recoverIdle | recoverStop | resumeHold =>
    exact hfree hq (by simp) (by simp) (by simp) (by simp) (by simp) hres htot
  | pause hp =>
    exact ⟨hq, fun h => ht.rolling (bound_pause h (by simp)),
      fun h => ht.past (h.imp (bound_pause · (by simp)) (bound_pause · (by simp))), hres, htot⟩
  | resumeStay hp hphase =>
    subst hphase
    exact ⟨hq, fun h => ht.rolling (bound_resume hp hf h),
      fun h => ht.past (h.imp (bound_resume hp hf) (bound_resume hp hf)), hres, htot⟩
  | resumeJoin hp hfrom hn =>
    have hno : c.No (·.isActive) :=
      ht.quiet.none_active ⟨.joining, rfl, .inr (.inl ⟨hp, .inl (by simp [hfrom])⟩)⟩
    exact hn.tally rfl hno (by simp) hres htot
  | @recoverTo ws ph hp hbatch htarget hph =>
    have hne : ph ≠ .recovery := by rcases hph with rfl | rfl | rfl <;> simp
    exact ⟨hq, fun h => ht.rolling (bound_recover hp htarget h (by simp) hne),
      fun h => ht.past (h.imp (bound_recover hp htarget · (by simp) hne)
        (bound_recover hp htarget · (by simp) hne)), hres, htot⟩
  | recoverJoin => exact hfree hq (by simp) (by simp) (by simp) (by simp) (by simp) hres htot
  | recoverNext hp hbatch hrebuilt hno hready hn => exact hn.tally rfl hno hf hres htot
  | recoverRoll hp hbatch hrebuilt hws hprepared hready =>
    have hnone : c.No (· = .resolvingMerge) := no_iff_not_in.2 fun id hid =>
      hroll _ rfl ⟨hp, hbatch, hrebuilt, hws, hprepared, ⟨id, hid⟩, hready⟩
    refine ⟨hq, fun _ => hnone, fun h => ?_, hres, htot⟩
    rw [bound_iff (by simp) (by simp), bound_iff (by simp) (by simp)] at h
    simp at h
  | openCohort hp hb hzero =>
    have hno : ∀ {kind : TaskPhase → Bool} {e : Course}, e.task = (fun _ => none) → e.No kind :=
      fun he id m hm => by simp [he] at hm
    exact ⟨hq, fun _ => hno rfl, fun _ => hno rfl, fun id hid => by simp [In] at hid,
      fun b hb => by obtain rfl := Option.some.inj hb; exact hzero⟩
  | @admitWave _ _ b batch ids hp hb hopen hnd hfresh hfit hcl =>
    have hin : ∀ k, In { c with
        batch := batch
        size := c.size + ids.length
        task := fun k => if k ∈ ids then some ⟨.capturing, none⟩ else c.task k } k .resolvingMerge →
        c.In k .resolvingMerge := by
      intro k hk
      simp only [In] at hk
      split at hk
      · simp at hk
      · exact hk
    refine ⟨hq, fun _ => ?_, fun h => ?_, fun id hid => hres id (hin id hid), total_iff.2 fun n hn => ?_⟩
    · exact no_iff_not_in.2 fun k hk =>
        no_iff_not_in.1 (ht.rolling (bound_here hp)) k (hin k hk)
    · rw [bound_iff (by simp [hp]) (by simp [hp]), bound_iff (by simp [hp]) (by simp [hp])] at h
      simp [hp] at h
    · rw [show Option.map (·.admittedTotal) batch = _ from hcl.admitted] at hn
      obtain rfl := Option.some.inj hn
      rw [← htot b hb]
      rfl
  | closeWave hp hcl hclosed hc | advance hp hcl hclosed hc =>
    have hbtot := total_iff.1 htot
    rw [← hcl.admitted] at hbtot
    have hrolling := ht.rolling (bound_here hp)
    obtain ⟨-, -, rfl | hno⟩ := hc.frame
    · exact hsame hq rfl rfl rfl id id hres (total_iff.2 hbtot)
    · exact hc.tally hno hf (fun _ => hrolling) hres (total_iff.2 hbtot)
  | refreshOpen | refreshPost => exact hsame hq rfl rfl rfl id id hres htot
  | halt hb hex hc =>
    refine hc.tally escalateActive_no_active hf (fun hready => ?_) (fun id hid => ?_) ?_
    · refine no_iff_not_in.2 fun id hid => hhalt hex ⟨⟨id, ?_⟩, no_iff_not_in.2 fun k hk => ?_⟩
      · exact (in_escalateActive rfl (by simp)).1 hid
      · exact no_iff_not_in.1 hready k ((in_escalateActive (c := c) rfl (by simp)).2 hk)
    · exact hres id ((in_escalateActive rfl (by simp)).1 hid)
    · intro b' hb'
      obtain rfl := Option.some.inj hb'
      rw [closedFor_admitted]
      exact htot _ hb
  | @task _ id from_ to_ harrow hid =>
    have hto := harrow.lands
    exact hsame hq rfl rfl rfl (no_setTask (by simpa using hto.2.1)) (hsetUnmerged hto.1)
      (hset hto.2.1) htot
  | taskReady hp hid =>
    refine ⟨hq, fun _ => no_setTask rfl (ht.rolling (bound_here hp)), fun h => ?_, hset (by simp), htot⟩
    rw [bound_iff (by simp [setTask, hp]) (by simp [setTask, hp]),
      bound_iff (by simp [setTask, hp]) (by simp [setTask, hp])] at h
    simp [setTask, hp] at h
  | @taskCommitted id from_ to_ tip harrow hid =>
    have hto := harrow.lands
    exact hsame hq rfl rfl rfl (no_setTask (by simpa using hto.2.1)) (hsetUnmerged hto.1)
      (hset hto.2.1) htot
  | workspaceReady hp hn => exact hn.tally hp (hjoin hp) hf hres htot
  | merged hp hid hn | quarantined hp hid hn =>
    exact hn.tally hp (no_setTask rfl (hjoin hp)) hf (hset (by simp)) htot
  | @needsResolution id tip _ _ _ _ hp hid hnone =>
    refine hfree hq (by simp [setTask, hp]) (by simp [setTask, hp]) (by simp [setTask, hp])
      (by simp [setTask, hp]) (by simp [setTask, hp]) (fun k hk => ?_) htot
    rcases in_setTask.1 hk with ⟨rfl, -⟩ | ⟨-, h⟩
    · rfl
    · have := hres k h
      simp [hnone] at this
  | @resolved id tip sha _ hp hid hr hn =>
    refine hn.tally hp (no_setTask rfl (hjoin hp)) hf (fun k hk => ?_) htot
    rcases in_setTask.1 hk with ⟨-, h⟩ | ⟨hne, h⟩
    · simp at h
    · exact absurd (Option.some.inj (hr.symm.trans (hres k h))) hne
  | @unresolved _ id tip _ hp hid hr _ hn =>
    refine hn.tally hp (no_setTask rfl (hjoin hp)) hf (fun k hk => ?_) htot
    rcases in_setTask.1 hk with ⟨-, h⟩ | ⟨hne, h⟩
    · simp at h
    · exact absurd (Option.some.inj (hr.symm.trans (hres k h))) hne
  | verified | reviewed | reanchorRequired | repaired | skipped | reconfirmed =>
    exact hsame hq rfl rfl rfl id id hres htot
  | findings hp hph | fixCommitted hp hph =>
    rcases hph with rfl | rfl
    · exact hsame hq hp.symm rfl rfl id id hres htot
    · exact hfree hq (by simp) (by simp) (by simp) (by simp) (by simp) hres htot
  | published hp =>
    exact hlate hq (.inl hp) (no_moveAll rfl (hdue (.inl hp))) htot
  | rejected hp =>
    exact hlate hq (.inr rfl) (no_moveAll rfl (hdue (.inl hp))) htot
  | reanchored hp =>
    refine hfree hq (by simp) (by simp) (by simp) (by simp) (by simp) (fun id hid => ?_) htot
    have hno : (c.moveAll c.merged .ready).No (· = .resolvingMerge) :=
      no_moveAll rfl (no_resolving_of_unmerged (hdue (.inl hp)))
    exact absurd hid (no_iff_not_in.1 hno id)
  | ciSettled hp => exact hlate hq (.inr rfl) (hdue (.inl hp)) htot
  | ciOpen hobs | ciFailed hobs =>
    cases hobs with
    | publish hp => exact hsame hq rfl rfl rfl id id hres htot
    | archive hp => exact hlate hq (.inl rfl) (hdue (.inr hp)) htot
  | ciGivenUp hobs =>
    cases hobs <;>
      exact hfree hq (by simp) (by simp) (by simp) (by simp) (by simp) hres htot
  | ciHold => exact hfree hq (by simp) (by simp) (by simp) (by simp) (by simp) hres htot
  | finished hp =>
    refine hfree hq (by simp) (by simp) (by simp) (by simp) (by simp) (fun id hid => ?_) (by simp)
    have hno := no_iff_not_in.1 (no_resolving_of_unmerged (hdue (.inr hp))) id
    simp only [In, Option.map_map] at hid hno
    cases hm : c.task id with
    | none => simp [hm] at hid
    | some m =>
      by_cases hp : m.phase = .published <;> simp_all

/-- Every move keeps the accounting, within the three conditions. -/
theorem Moves.tally {config : ProcessorConfig} {c d : Course} {step : ProcessorStep}
    (h : Moves config c step d) (ht : c.Tally)
    (hbar : ∀ ws, step = .apply (.recover ws) → ¬c.breaksBarrier ws ∧ ¬c.rollsInResolution ws)
    (hhalt : ∀ cmd, step = .apply cmd → c.stands cmd = false → exhausts config c.batch cmd = true →
      ¬c.haltsInResolution) : d.Tally := by
  cases h with
  | stand | noted => exact ht
  | shift hstand hshift =>
    exact hshift.tally ht (fun ws hws => (hbar ws (by rw [hws])).1)
      (fun ws hws => (hbar ws (by rw [hws])).2) (hhalt _ rfl hstand)
  | journal => exact ⟨⟨ht.quiet.none_active, ht.quiet.paused⟩, ht.rolling, ht.past, ht.resolving, ht.total⟩
  | restart =>
    have hq : Quiet { c with phase := .recovery, target := some c.phase } :=
      Moves.quiet config .restart ht.quiet (by simp)
    exact ⟨hq, fun h => ht.rolling (bound_restart h (by simp)),
      fun h => ht.past (h.imp (bound_restart · (by simp)) (bound_restart · (by simp))), ht.resolving,
      ht.total⟩

theorem initial_tally : Course.initial.Tally := by
  have hno : ∀ kind, Course.initial.No kind := fun kind id m hm => by simp [Course.initial] at hm
  exact ⟨initial_quiet, fun _ => hno _, fun _ => hno _, fun id hid => by simp [In, Course.initial] at hid,
    by simp [Course.initial]⟩

/-- What the end of a cohort does to the course. -/
theorem Shift.closes {config : ProcessorConfig} {c d : Course}
    (h : Shift config c .cleanupComplete d) (hidle : d.phase = .idle) (hne : c.phase ≠ .idle) :
    c.phase = .cleaning ∧ c.No (· = .merged) ∧ d.batch = none ∧ d.size = c.size ∧
      d.task = fun k => (c.task k).map fun m =>
        if m.phase = .published then { m with phase := .done } else m := by
  generalize hcmd : ProcessorCommand.cleanupComplete = cmd at h
  cases h with
  | finished hp hm => exact ⟨hp, hm, rfl, rfl, rfl⟩
  | stay => exact absurd hidle hne
  | hold => simp at hidle
  | halt _ hex => subst hcmd; simp [exhausts] at hex
  | task => exact absurd hidle hne
  | taskReady _ _ hclean => subst hcmd; simp [cleanReview] at hclean
  | unresolved _ _ _ hkind => obtain ⟨_, rfl | rfl⟩ := hkind <;> simp at hcmd
  | ciHold => simp at hidle
  | ciOpen hobs | ciFailed hobs | ciGivenUp hobs => cases hobs <;> simp at hcmd
  | _ => simp at hcmd

namespace Processor

variable {config : ProcessorConfig} {p p0 q : Processor}

/-- A merge is being resolved and no other task waits for its merge. -/
def midResolution (p : Processor) : Bool :=
  p.taskList.any (·.phase = .resolvingMerge) && !p.taskList.any (·.phase = .ready)

/-- The steps that keep the accounting: no recovery returns past an active task, or to phase 2 in
the middle of a merge resolution, and no budget check halts the cohort there. -/
def keepsAccounts (p : Processor) : ProcessorStep → Bool
  | .apply (.recover ws) => !p.recoversPastActive ws &&
      !(p.rebuildsCohort ws && !p.state.integration.workspacePrepared && p.midResolution)
  | .apply cmd =>
    !(exhausts p.config p.state.batch cmd && (p.standingReply cmd).isNone && p.midResolution)
  | _ => true

theorem midResolution_eq_true : p.midResolution = true ↔ p.course.haltsInResolution := by
  rw [midResolution, Bool.and_eq_true, Bool.not_eq_true', ← Bool.not_eq_true, any_phase, any_phase,
    Course.haltsInResolution, no_iff_not_in, not_exists]

theorem exhausts_erased (config : ProcessorConfig) {batch : Option CohortRuntime} {cmd : ProcessorCommand} :
    exhausts config (batch.map (·.erased)) cmd = exhausts config batch cmd := by
  unfold exhausts
  cases cmd with
  | cohortBudgetChecked => cases config.cohortBudgetSecs <;> cases batch <;> rfl
  | tokenBudgetChecked _ observation => cases observation <;> rfl
  | _ => rfl

theorem tally_of_reach (hnew : Processor.new config = .ok p0)
    (hrun : Reach Processor.next (fun p step => p.keepsAccounts step = true) p0 p) :
    Sound p ∧ p.course.Tally := by
  obtain ⟨-, hs, -, hc⟩ := new_spec hnew
  suffices hstep : ∀ r step d, r.course.Tally → Sound r → r.keepsAccounts step = true →
      Moves r.config r.course step d → d.Tally by
    obtain ⟨hs, -, ht⟩ := reach_course (I := Course.Tally) hrun hs (hc ▸ initial_tally) hstep
    exact ⟨hs, ht⟩
  intro r step d ht hr hok hm
  refine hm.tally ht (fun ws hws => ?_) fun cmd hcmd hstand hex hmid => ?_
  · subst hws
    simp only [keepsAccounts, Bool.and_eq_true, Bool.not_eq_true'] at hok
    refine ⟨fun hb => ?_, fun ⟨h1, h2, h3, h4, h5, h6⟩ => ?_⟩
    · simp [(recoversPastActive_eq_true hr).2 hb] at hok
    · have hprepared : r.state.integration.workspacePrepared = false := h5
      simp [(rebuildsCohort_eq_true hr).2 ⟨h1, h2, h3, h4⟩, hprepared,
        midResolution_eq_true.2 h6] at hok
  · subst hcmd
    have hnone : (r.standingReply cmd).isNone = true := by
      rw [← standingReply_isSome] at hstand
      cases h : r.standingReply cmd <;> simp_all
    have hex : exhausts r.config r.state.batch cmd = true := exhausts_erased r.config ▸ hex
    cases cmd with
    | recover ws => simp [exhausts] at hex
    | _ => simp [keepsAccounts, hex, hnone, midResolution_eq_true.2 hmid] at hok

/-- The ids of a table keyed by them, in one phase: as many as the tasks. -/
theorem idsInPhase_size (hs : Sound p) (ph : TaskPhase) :
    (p.state.idsInPhase ph).size = (p.taskList.filter (·.phase = ph)).length := by
  have hnd : ((p.taskList.filter (·.phase = ph)).map (·.id)).Nodup :=
    Table.nodup_keyed (fun k t ht => (hs.tasks k t ht).key) _
  have hsize := Table.size_ofNodup hnd
  rw [List.length_map] at hsize
  exact hsize

/-- Three kinds that exhaust a list partition it. -/
theorem length_partition {α : Type} {f g h : α → Bool} :
    ∀ {as : List α}, (∀ a ∈ as, f a = true ∧ g a = false ∧ h a = false ∨
        f a = false ∧ g a = true ∧ h a = false ∨ f a = false ∧ g a = false ∧ h a = true) →
      (as.filter f).length + (as.filter g).length + (as.filter h).length = as.length
  | [], _ => rfl
  | a :: as, hall => by
    obtain ⟨ha, hall⟩ := List.forall_mem_cons.1 hall
    have ih := length_partition hall
    rcases ha with ⟨h1, h2, h3⟩ | ⟨h1, h2, h3⟩ | ⟨h1, h2, h3⟩ <;> simp [h1, h2, h3] <;> omega

theorem taskList_length : p.taskList.length = p.state.tasks.size := by
  rw [taskList, Table.vals, List.length_map, Std.ExtTreeMap.length_toList]

/-- **The counters of a closed cohort add up to its tasks.** -/
theorem close_counts (hs : Sound p)
    (hall : ∀ (id : String) (t : TaskRuntime), p.state.tasks[id]? = some t →
      t.phase = .done ∨ t.phase = .conflict ∨ t.phase = .escalated) :
    (p.state.idsInPhase .done).size + (p.state.idsInPhase .conflict).size +
      (p.state.idsInPhase .escalated).size = p.state.tasks.size := by
  rw [idsInPhase_size hs, idsInPhase_size hs, idsInPhase_size hs, ← taskList_length]
  refine length_partition fun t ht => ?_
  obtain ⟨id, hid⟩ := Table.mem_vals.1 ht
  rcases hall id t hid with hph | hph | hph <;> simp [hph]

section Events

variable {eventId : String → String} {now : String} {before after : ProcessorState}

/-- A command that only ends the cohort emits exactly one closing event, with the counters of the
state it ends in. -/
theorem closing_event {command : ProcessorCommand} {b : CohortRuntime} (hb : before.batch = some b)
    (ha : after.batch = none) (hidle : after.phase = .idle) :
    (projectProcessorTransition eventId now before after command).filter
        (·.eventType = .cohortClosed) =
      [eventWithPayload eventId now .cohortClosed (some b.id) none (cohortClosePayload after) "close"] := by
  have hround : ∀ e ∈ roundStartedEvents eventId now before command, ¬e.eventType = .cohortClosed := by
    intro e he
    unfold roundStartedEvents at he
    split at he
    · split at he
      · obtain rfl := List.mem_singleton.1 he; simp [cohortRoundEvent, eventWithPayload]
      · simp at he
    · simp at he
  have hclose : ∀ e ∈ roundClosedEvents eventId now before after command,
      ¬e.eventType = .cohortClosed := by
    intro e he
    unfold roundClosedEvents at he
    split at he
    · obtain rfl := List.mem_singleton.1 he; simp [cohortRoundEvent, eventWithPayload]
    · simp at he
  have htask : ∀ e ∈ after.tasks.toList.flatMap
      (taskEvents eventId now before command (some b.id)), ¬e.eventType = .cohortClosed := by
    intro e he
    obtain ⟨entry, -, he⟩ := List.mem_flatMap.1 he
    simp only [taskEvents] at he
    split at he
    · simp at he
    · rcases List.mem_append.1 he with he | he
      · split at he
        · obtain rfl := List.mem_singleton.1 he; simp [eventWithPayload]
        · simp at he
      · unfold projectTaskStatus at he
        simp only at he
        split at he
        · obtain rfl := List.mem_singleton.1 he; simp [eventWithPayload]
        · simp at he
  have hpublished : ∀ e ∈ publishedEvents eventId now before after command b.id,
      ¬e.eventType = .cohortClosed := by
    intro e he
    unfold publishedEvents at he
    simp only at he
    split at he
    · split at he
      · obtain rfl := List.mem_singleton.1 he; simp [eventWithPayload]
      · simp at he
    · simp at he
  have hfilter : ∀ {es : List Event}, (∀ e ∈ es, ¬e.eventType = .cohortClosed) →
      es.filter (·.eventType = .cohortClosed) = [] := fun h =>
    List.filter_eq_nil_iff.2 fun e he => by simpa using h e he
  simp [projectProcessorTransition, hb, ha, hidle, hfilter hround, hfilter hclose, hfilter htask,
    hfilter hpublished, admissionClosedEvents, eventWithPayload]

theorem closePayload_get :
    (cohortClosePayload after)["merged"]? = some (.number (after.idsInPhase .done).size) ∧
      (cohortClosePayload after)["quarantined"]? = some (.number (after.idsInPhase .conflict).size) ∧
      (cohortClosePayload after)["escalated"]? = some (.number (after.idsInPhase .escalated).size) := by
  refine ⟨?_, ?_, ?_⟩
  · rw [cohortClosePayload, Std.ExtTreeMap.getElem?_insert, if_neg (by decide),
      Std.ExtTreeMap.getElem?_insert, if_neg (by decide), Std.ExtTreeMap.getElem?_insert_self]
  · rw [cohortClosePayload, Std.ExtTreeMap.getElem?_insert, if_neg (by decide),
      Std.ExtTreeMap.getElem?_insert_self]
  · rw [cohortClosePayload, Std.ExtTreeMap.getElem?_insert_self]

end Events

/-- **No task falls out of the accounting**: a closed cohort has finished every task it admitted,
and the counters of its closing event add up to the admitted total. -/
theorem cohort_accounting {b : CohortRuntime} (eventId : String → String) (now : String)
    (hnew : Processor.new config = .ok p0)
    (hrun : Reach Processor.next (fun p step => p.keepsAccounts step = true) p0 p)
    (hb : p.state.batch = some b) (h : p.next (.apply .cleanupComplete) = some q)
    (hidle : q.state.phase = .idle) :
    (∀ (id : String) (t : TaskRuntime), q.state.tasks[id]? = some t →
        t.phase = .done ∨ t.phase = .conflict ∨ t.phase = .escalated) ∧
      q.state.tasks.size = b.admittedTotal ∧
      ∃ event merged quarantined escalated,
        (projectProcessorTransition eventId now p.state q.state .cleanupComplete).filter
          (·.eventType = .cohortClosed) = [event] ∧
        event.payload["merged"]? = some (.number merged) ∧
        event.payload["quarantined"]? = some (.number quarantined) ∧
        event.payload["escalated"]? = some (.number escalated) ∧
        merged + quarantined + escalated = b.admittedTotal := by
  obtain ⟨hs, ht⟩ := tally_of_reach hnew hrun
  obtain ⟨hk, hmove⟩ := next_moves hs h
  have hne : p.state.phase ≠ .idle := by
    intro hp
    simp [next, apply, standingReply, dispatch, cleanupComplete, requirePhase, require, hp, bind,
      Except.bind, Except.toOption] at h
  obtain ⟨hphase, hmerged, hbatch, hsize, htask⟩ : p.course.phase = .cleaning ∧
      p.course.No (· = .merged) ∧ q.course.batch = none ∧ q.course.size = p.course.size ∧
      q.course.task = fun k => (p.course.task k).map fun m =>
        if m.phase = .published then { m with phase := .done } else m := by
    have hidle' : q.course.phase = .idle := hidle
    generalize q.course = d at hmove hidle'
    cases hmove with
    | stand => exact absurd hidle' hne
    | shift _ hshift => exact hshift.closes hidle' hne
  -- phase 6 has only finished tasks
  have hpast := ht.past (.inr (bound_here hphase))
  have hactive := ht.quiet.none_active (settles_here (by simp [hphase, settled]))
  have hdone : ∀ (id : String) (t : TaskRuntime), q.state.tasks[id]? = some t →
      t.phase = .done ∨ t.phase = .conflict ∨ t.phase = .escalated := by
    intro id t hget
    have hmark : q.course.task id = some t.mark := task_eq hget
    rw [htask] at hmark
    obtain ⟨m, hm, hmt⟩ := Option.map_eq_some_iff.1 hmark
    have h1 := hpast id m hm
    have h2 := hactive id m hm
    have h3 := hmerged id m hm
    have hph : t.phase = if m.phase = .published then .done else m.phase := by
      rw [show t.phase = t.mark.phase from rfl, ← hmt]
      split <;> rfl
    cases hmp : m.phase <;> simp_all [TaskPhase.isUnmerged, TaskPhase.isActive]
  have htotal : q.state.tasks.size = b.admittedTotal := by
    have := ht.total b.erased (by simp [course, hb])
    exact hsize.trans this.symm
  have hnone : q.state.batch = none := by simpa [course] using hbatch
  refine ⟨hdone, htotal, _, (q.state.idsInPhase .done).size, (q.state.idsInPhase .conflict).size,
    (q.state.idsInPhase .escalated).size, closing_event hb hnone hidle, ?_, ?_, ?_, ?_⟩
  · exact closePayload_get.1
  · exact closePayload_get.2.1
  · exact closePayload_get.2.2
  · rw [close_counts hk.sound hdone, htotal]

section Sample

/-- From a fresh phase 6 with nothing to archive to its last step. -/
def windDown : List ProcessorStep :=
  [.acknowledge .writeJournalAndStatus, .apply (.archivalPrepared .skipped),
    .apply (.dependencyGraphRefreshed .postArchive (.completed none))]

/-- A phase 4 whose only task is in a merge resolution. -/
def conflicted : List ProcessorStep :=
  cohortOf [proposal "T-1" "a/**"] ++ reviewed "T-1" "c1" ++
    [.apply (.admitWave [] 0), .apply .integrationWorkspaceReady,
      .apply (.taskMerged "T-1" (.needsResolution "base" ["a/x"] ["a/x"] []))]

/-- The next end of the cohort leaves for `Idle`. -/
def closesNext (p : Processor) : Bool :=
  p.state.batch.isSome && (p.next (.apply .cleanupComplete)).any (·.state.phase = .idle)

end Sample

theorem cohort_accounting_escalated :
    ∃ p q : Processor, p.next (.apply .cleanupComplete) = some q ∧ q.state.tasks.size = 1 ∧
      ∀ (id : String) (t : TaskRuntime), q.state.tasks[id]? = some t →
        t.phase = .done ∨ t.phase = .conflict ∨ t.phase = .escalated := by
  have hrun : (exec (guarded keepsAccounts Processor.next) fresh
      (cohortOf [proposal "T-1" "a/**"] ++ [.apply (.workspaceFailed "T-1" "no disk"),
        .apply (.admitWave [] 0)] ++ windDown)).any
        (fun p => p.closesNext && p.state.batch.any (·.admittedTotal = 1)) = true := by decide +kernel
  obtain ⟨p, hreach, hp⟩ := exec_any hrun
  simp only [closesNext, Bool.and_eq_true, Option.any_eq_true, decide_eq_true_eq] at hp
  obtain ⟨⟨-, q, hq, hidle⟩, b, hb, hone⟩ := hp
  obtain ⟨hdone, hsize, -⟩ :=
    cohort_accounting id "" fresh_new hreach hb hq hidle
  exact ⟨p, q, hq, hone ▸ hsize, hdone⟩

/-- A budget halt in the middle of a merge resolution drops the task. -/
theorem cohort_accounting_broken :
    ¬∀ (config : ProcessorConfig) (p0 p q : Processor), Processor.new config = .ok p0 →
      Reach Processor.next (fun _ _ => True) p0 p → p.state.batch.isSome = true →
      p.next (.apply .cleanupComplete) = some q → q.state.phase = .idle →
      ∀ (id : String) (t : TaskRuntime), q.state.tasks[id]? = some t →
        t.phase = .done ∨ t.phase = .conflict ∨ t.phase = .escalated := by
  intro hall
  have hrun : (exec (guarded (fun _ _ => true) Processor.next)
      { fresh with config := { cohortTokenBudget := some 10 } }
      (conflicted ++ [.apply (.tokenBudgetChecked (.integration .merger) .unavailable)] ++ windDown)).any
        (fun p => p.state.batch.isSome && (p.next (.apply .cleanupComplete)).any fun q =>
          decide (q.state.phase = .idle) && q.taskList.any (·.phase = .resolvingMerge)) = true := by
    decide +kernel
  obtain ⟨p, hreach, hp⟩ := exec_any hrun
  simp only [Bool.and_eq_true, Option.any_eq_true, decide_eq_true_eq] at hp
  obtain ⟨hb, q, hq, hidle, htask⟩ := hp
  obtain ⟨id, t, ht, hph⟩ := Table.any_vals.1 htask
  have := hall { cohortTokenBudget := some 10 } _ p q rfl (hreach.mono fun _ _ _ => trivial) hb hq hidle
    id t ht
  simp_all

end Processor

end Orchestrail
