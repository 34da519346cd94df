import Orchestrail.Proof.Books
import Orchestrail.Proof.Keys

/-!
# Merges happen in a prepared workspace

The reducer accepts a merge result in phase 4 whether or not the integration workspace is prepared;
the ledger asks for it only when it is. So a merged task always has a prepared workspace behind it,
and Phase 0 never returns to phase 2 with one.
-/

namespace Orchestrail

open Std Table Steps

namespace Course

variable (c : Course)

/-- Every merged task is recorded as merged. -/
def Recorded : Prop := ∀ id, c.In id .merged → id ∈ c.merged

/-- **No merged task is left without its workspace, or where a wave is admitted.** -/
structure Docked : Prop where
  prepared : c.prepared = false → c.No (· = .merged) ∧ c.resolving = none
  past : c.bound .publishing ∨ c.bound .cleaning → c.No (· = .ready)
  rolling : c.bound .rolling → c.No (· = .merged)
  paused : c.pausedFrom ≠ some .paused

variable {c} {d : Course}

theorem Recorded.congr (hc : c.Recorded) (ht : d.task = c.task) (hm : d.merged = c.merged) :
    d.Recorded := by
  intro id hid
  rw [hm]
  exact hc id ((in_congr ht).1 hid)

theorem Recorded.setTask (hc : c.Recorded) {id : String} {m : Mark} (hm : m.phase ≠ .merged) :
    (c.setTask id m).Recorded := by
  intro k hk
  rcases in_setTask.1 hk with ⟨-, h⟩ | ⟨-, h⟩
  exacts [absurd h hm, hc k h]

theorem Recorded.merge (hc : c.Recorded) {id : String} {m : Mark} :
    ({ c.setTask id m with merged := c.merged.insert id } : Course).Recorded := by
  intro k hk
  rw [ExtTreeSet.mem_insert, Std.compare_eq_iff_eq]
  rcases in_setTask.1 hk with ⟨h, -⟩ | ⟨-, h⟩
  exacts [.inl h, .inr (hc k h)]

/-- Moving the whole merged set leaves no task merged. -/
theorem Recorded.moveAll (hc : c.Recorded) {ph : TaskPhase} (hph : ph ≠ .merged) :
    (c.moveAll c.merged ph).No (· = .merged) := by
  refine no_iff_not_in.2 fun id hid => ?_
  rcases in_moveAll.1 hid with ⟨-, -, h⟩ | ⟨hnot, h⟩
  exacts [hph h, hnot (hc id h)]

theorem recorded_of_no (h : d.No (· = .merged)) : d.Recorded :=
  fun id hid => absurd hid (no_iff_not_in.1 h id)

/-- In a phase that returns nowhere and is none of the three, only the workspace matters. -/
theorem docked_free (hp : d.phase = .joining ∨ d.phase = .blocked ∨ d.phase = .idle)
    (hprep : d.prepared = false → d.No (· = .merged) ∧ d.resolving = none)
    (hf : d.pausedFrom ≠ some .paused) : d.Docked := by
  have hne : ∀ ph, ph = .rolling ∨ ph = .publishing ∨ ph = .cleaning → ¬d.bound ph := by
    intro ph hph hb
    have hb := (bound_iff (by rcases hp with h | h | h <;> simp [h])
      (by rcases hp with h | h | h <;> simp [h])).1 hb
    rcases hp with h | h | h <;> rw [h] at hb <;> rcases hph with rfl | rfl | rfl <;> cases hb
  refine ⟨hprep, fun h => ?_, fun h => ?_, hf⟩
  · rcases h with h | h
    exacts [absurd h (hne _ (.inr (.inl rfl))), absurd h (hne _ (.inr (.inr rfl)))]
  · exact absurd h (hne _ (.inl rfl))

/-- The same phases and workspace, and no new ready or merged task. -/
theorem Docked.same (hc : c.Docked) (hp : d.phase = c.phase) (hf : d.pausedFrom = c.pausedFrom)
    (ht : d.target = c.target) (hprep : d.prepared = c.prepared) (hres : d.resolving = c.resolving)
    (hready : c.No (· = .ready) → d.No (· = .ready))
    (hmerged : c.No (· = .merged) → d.No (· = .merged)) : d.Docked := by
  refine ⟨fun h => ?_, fun h => hready (hc.past ?_), fun h => hmerged (hc.rolling ?_), hf ▸ hc.paused⟩
  · obtain ⟨hno, hnone⟩ := hc.prepared (hprep ▸ h)
    exact ⟨hmerged hno, hres.trans hnone⟩
  · rwa [bound_congr hp hf ht, bound_congr hp hf ht] at h
  · rwa [bound_congr hp hf ht] at h

/-- In phase 5 or 6 nothing may be ready. -/
theorem docked_late (hp : d.phase = .publishing ∨ d.phase = .cleaning)
    (hprep : d.prepared = false → d.No (· = .merged) ∧ d.resolving = none)
    (hready : d.No (· = .ready)) (hf : d.pausedFrom ≠ some .paused) : d.Docked := by
  refine ⟨hprep, fun _ => hready, fun h => ?_, hf⟩
  have h := (bound_iff (by rcases hp with h | h <;> simp [h])
    (by rcases hp with h | h <;> simp [h])).1 h
  rcases hp with hp | hp <;> rw [hp] at h <;> cases h

end Course

open Course

theorem Next.docked {c d : Course} (h : Next c d) (hp : c.phase = .joining)
    (hprep : c.prepared = false → c.No (· = .merged) ∧ c.resolving = none)
    (hf : c.pausedFrom ≠ some .paused) : d.Docked := by
  cases h with
  | unprepared | resolve | merge => exact docked_free (.inl hp) hprep hf
  | clean _ _ hready | review _ _ hready =>
    exact docked_late (by first | exact .inl rfl | exact .inr rfl) hprep hready hf

theorem Closed.docked {c d : Course} (h : Closed c d) (hc : c.Docked) : d.Docked := by
  cases h with
  | wait => exact hc
  | join => exact docked_free (.inl rfl) hc.prepared hc.paused
  | clean _ hready => exact docked_late (.inr rfl) hc.prepared hready hc.paused

theorem Next.recorded {c d : Course} (h : Next c d) (hc : c.Recorded) : d.Recorded := by
  rw [h.eq]; exact hc.congr rfl rfl

theorem Closed.recorded {c d : Course} (h : Closed c d) (hc : c.Recorded) : d.Recorded := by
  rw [h.eq]; exact hc.congr rfl rfl

/-- The end of a cohort leaves no task merged. -/
theorem no_merged_finished {c d : Course} (h : c.No (· = .merged))
    (ht : d.task = fun k => (c.task k).map fun m =>
      if m.phase = .published then { m with phase := .done } else m) : d.No (· = .merged) := by
  intro id m hm
  rw [ht] at hm
  obtain ⟨n, hn, rfl⟩ := Option.map_eq_some_iff.1 hm
  split
  · rfl
  · exact h id n hn

theorem Shift.recorded {config : ProcessorConfig} {c d : Course} {cmd : ProcessorCommand}
    (h : Shift config c cmd d) (hc : c.Recorded) : d.Recorded := by
  cases h with
  | stay => exact hc
  | resumeJoin _ _ hn | recoverNext _ _ _ _ _ hn | workspaceReady _ hn =>
    exact hn.recorded (hc.congr rfl rfl)
  | openCohort => exact fun id hid => by simp [In] at hid
  | admitWave hp hb hopen hnd hfresh =>
    intro k hk
    simp only [In] at hk
    split at hk
    · simp at hk
    · exact hc k hk
  | closeWave _ _ _ hn | advance _ _ _ hn => exact hn.recorded (hc.congr rfl rfl)
  | halt _ _ hn =>
    exact hn.recorded fun id hid => hc id ((in_escalateActive rfl (by simp)).1 hid)
  | task harrow => exact hc.setTask harrow.lands.2.2.2.1
  | taskCommitted harrow => exact hc.setTask harrow.lands.2.2.2.1
  | taskReady | needsResolution => exact hc.setTask (by simp)
  | merged _ _ hn | resolved _ _ _ hn => exact hn.recorded (hc.merge.congr rfl rfl)
  | quarantined _ _ hn => exact hn.recorded (hc.setTask (by simp))
  | @unresolved _ id tip _ _ _ _ _ hn =>
    exact hn.recorded ((hc.setTask (m := ⟨.conflict, tip⟩) (by simp)).congr rfl rfl)
  | published | rejected | reanchored => exact recorded_of_no (no_of_task_eq rfl (hc.moveAll (by simp)))
  | ciOpen hobs | ciFailed hobs | ciGivenUp hobs => cases hobs <;> exact hc.congr rfl rfl
  | finished _ hno => exact recorded_of_no (no_merged_finished hno rfl)
  | _ => exact hc.congr rfl rfl

/-- Every shift keeps it, if a merge result finds the workspace prepared. -/
theorem Shift.docked {config : ProcessorConfig} {c d : Course} {cmd : ProcessorCommand}
    (h : Shift config c cmd d) (hc : c.Docked) (hrec : c.Recorded)
    (hmerge : ∀ id outcome, cmd = .taskMerged id outcome → c.prepared = true) : d.Docked := by
  have hf := hc.paused
  have hprep := hc.prepared
  have hset : ∀ {id : String} {m : Mark}, m.phase ≠ .ready → m.phase ≠ .merged →
      (c.No (· = .ready) → (c.setTask id m).No (· = .ready)) ∧
        (c.No (· = .merged) → (c.setTask id m).No (· = .merged)) := fun h1 h2 =>
    ⟨no_setTask (by simpa using h1), no_setTask (by simpa using h2)⟩
  have hlate : c.phase = .publishing ∨ c.phase = .cleaning → c.No (· = .ready) := fun hp =>
    hc.past (hp.imp bound_here bound_here)
  cases h with
  | stay => exact hc
  | hold | recoverHold | recoverStop | resumeHold | ciHold =>
    exact docked_free (.inr (.inl rfl)) hprep (by simp [hf])
  | recoverIdle => exact docked_free (.inr (.inr rfl)) hprep hf
  | pause hp =>
    refine ⟨hprep, fun h => hc.past (h.imp (bound_pause · (by simp)) (bound_pause · (by simp))),
      fun h => hc.rolling (bound_pause h (by simp)), ?_⟩
    simpa using hp
  | resumeStay hp hphase =>
    subst hphase
    exact ⟨hprep, fun h => hc.past (h.imp (bound_resume hp hf) (bound_resume hp hf)),
      fun h => hc.rolling (bound_resume hp hf h), by simp⟩
  | resumeJoin hp hfrom hn => exact hn.docked rfl hprep (by simp)
  | @recoverTo ws ph hp hbatch htarget hph =>
    have hne : ph ≠ .recovery := by rcases hph with rfl | rfl | rfl <;> simp
    exact ⟨hprep, fun h => hc.past (h.imp (bound_recover hp htarget · (by simp) hne)
      (bound_recover hp htarget · (by simp) hne)),
      fun h => hc.rolling (bound_recover hp htarget h (by simp) hne), hf⟩
  | recoverJoin => exact docked_free (.inl rfl) hprep hf
  | recoverNext hp hbatch hrebuilt hno hready hn => exact hn.docked rfl hprep hf
  | recoverRoll hp hbatch hrebuilt hws hprepared hready =>
    refine ⟨hprep, fun _ => no_of_task_eq rfl hready, fun _ => ?_, hf⟩
    exact no_of_task_eq rfl (hprep hprepared).1
  | openCohort hp hb hzero =>
    have hno : ∀ {kind : TaskPhase → Bool} {e : Course}, e.task = (fun _ => none) → e.No kind :=
      fun he id m hm => by simp [he] at hm
    exact ⟨fun _ => ⟨hno rfl, rfl⟩, fun _ => hno rfl, fun _ => hno rfl, hf⟩
  | admitWave hp hb hopen hnd hfresh hfit hcl =>
    have hadd : ∀ {kind : TaskPhase → Bool}, kind .capturing = false → c.No kind →
        ∀ {e : Course} {ids : List String}, e.task = (fun k => if k ∈ ids then
          some ⟨.capturing, none⟩ else c.task k) → e.No kind := by
      intro kind hk hno e ids he id m hm
      rw [he] at hm
      dsimp only at hm
      split at hm
      · obtain rfl := Option.some.inj hm; exact hk
      · exact hno id m hm
    exact hc.same rfl rfl rfl rfl rfl (fun h => hadd rfl h rfl) fun h => hadd rfl h rfl
  | closeWave hp hcl hclosed hn | advance hp hcl hclosed hn =>
    exact hn.docked (hc.same rfl rfl rfl rfl rfl id id)
  | refreshOpen | refreshPost => exact hc.same rfl rfl rfl rfl rfl id id
  | halt hb hex hn =>
    exact hn.docked (hc.same rfl rfl rfl rfl rfl (no_escalateActive rfl) (no_escalateActive rfl))
  | @task _ id from_ to_ harrow hid =>
    obtain ⟨h1, h2⟩ := @hset id ⟨to_, from_.tip⟩ harrow.lands.2.2.2.2 harrow.lands.2.2.2.1
    exact hc.same rfl rfl rfl rfl rfl h1 h2
  | taskReady hp hid =>
    refine ⟨fun h => ?_, fun h => ?_, fun h => ?_, hf⟩
    · exact ⟨no_setTask rfl (hprep h).1, (hprep h).2⟩
    · rw [bound_iff (by simp [setTask, hp]) (by simp [setTask, hp]),
        bound_iff (by simp [setTask, hp]) (by simp [setTask, hp])] at h
      simp [setTask, hp] at h
    · exact no_setTask rfl (hc.rolling (bound_here hp))
  | @taskCommitted id from_ to_ tip harrow hid =>
    obtain ⟨h1, h2⟩ := @hset id ⟨to_, some tip⟩ harrow.lands.2.2.2.2 harrow.lands.2.2.2.1
    exact hc.same rfl rfl rfl rfl rfl h1 h2
  | workspaceReady hp hn => exact hn.docked hp (by simp) hf
  | merged hp hid hn =>
    have htrue := hmerge _ _ rfl
    exact hn.docked hp (fun h => by simp [setTask, htrue] at h) hf
  | quarantined hp hid hn =>
    exact hn.docked hp (fun h => ⟨no_setTask rfl (hprep h).1, (hprep h).2⟩) hf
  | needsResolution hp hid hnone =>
    have htrue := hmerge _ _ rfl
    exact docked_free (.inl hp) (fun h => by simp [setTask, htrue] at h) hf
  | resolved hp hid hr hn =>
    refine hn.docked hp (fun h => ?_) hf
    have := (hprep h).2
    simp [hr] at this
  | unresolved hp hid hr hcmd hn =>
    refine hn.docked hp (fun h => ?_) hf
    have := (hprep h).2
    simp [hr] at this
  | verified | reviewed | reanchorRequired | repaired | skipped | reconfirmed =>
    exact hc.same rfl rfl rfl rfl rfl id id
  | findings hp hph | fixCommitted hp hph =>
    rcases hph with rfl | rfl
    · exact hc.same hp.symm rfl rfl rfl rfl id id
    · exact docked_free (.inr (.inl rfl)) hprep hf
  | published hp =>
    exact docked_late (.inl hp) (fun h => ⟨no_moveAll rfl (hprep h).1, (hprep h).2⟩)
      (no_moveAll rfl (hlate (.inl hp))) hf
  | rejected hp =>
    exact docked_late (.inr rfl) (fun h => ⟨no_moveAll rfl (hprep h).1, (hprep h).2⟩)
      (no_moveAll rfl (hlate (.inl hp))) hf
  | reanchored hp hre hm hin =>
    exact docked_free (.inl rfl) (fun _ => ⟨no_of_task_eq rfl (hrec.moveAll (by simp)), rfl⟩) hf
  | ciSettled hp => exact docked_late (.inr rfl) hprep (hlate (.inl hp)) hf
  | ciOpen hobs | ciFailed hobs =>
    cases hobs with
    | publish hp => exact hc.same rfl rfl rfl rfl rfl id id
    | archive hp => exact docked_late (.inl rfl) hprep (hlate (.inr hp)) hf
  | ciGivenUp hobs => cases hobs <;> exact docked_free (.inr (.inl rfl)) hprep hf
  | finished _ hno =>
    exact docked_free (.inr (.inr rfl)) (fun _ => ⟨no_merged_finished hno rfl, rfl⟩) hf

theorem Moves.recorded {config : ProcessorConfig} {c d : Course} {step : ProcessorStep}
    (h : Moves config c step d) (hc : c.Recorded) : d.Recorded := by
  cases h with
  | stand | noted => exact hc
  | shift _ hshift => exact hshift.recorded hc
  | journal | restart => exact hc.congr rfl rfl

theorem Moves.docked {config : ProcessorConfig} {c d : Course} {step : ProcessorStep}
    (h : Moves config c step d) (hc : c.Docked) (hrec : c.Recorded)
    (hmerge : ∀ id outcome, step = .apply (.taskMerged id outcome) → c.prepared = true) :
    d.Docked := by
  cases h with
  | stand | noted => exact hc
  | shift _ hshift =>
    exact hshift.docked hc hrec fun id outcome h => hmerge id outcome (congrArg _ h)
  | journal => exact hc.same rfl rfl rfl rfl rfl id id
  | restart =>
    exact ⟨hc.prepared, fun h => hc.past (h.imp (bound_restart · (by simp)) (bound_restart · (by simp))),
      fun h => hc.rolling (bound_restart h (by simp)), hc.paused⟩

theorem initial_docked : Course.initial.Docked ∧ Course.initial.Recorded := by
  have hno : ∀ kind, Course.initial.No kind := fun kind id m hm => by simp [Course.initial] at hm
  exact ⟨⟨fun _ => ⟨hno _, rfl⟩, fun _ => hno _, fun _ => hno _, by simp [Course.initial]⟩,
    recorded_of_no (hno _)⟩

theorem Next.keeps {c d : Course} (h : Next c d) : d.task = c.task ∧ d.prepared = c.prepared := by
  rw [h.eq]; exact ⟨rfl, rfl⟩

theorem Closed.keeps {c d : Course} (h : Closed c d) : d.task = c.task ∧ d.prepared = c.prepared := by
  rw [h.eq]; exact ⟨rfl, rfl⟩

/-- **A ready task of a prepared workspace stays so**, until its own merge or the next cohort. -/
theorem Shift.ready {config : ProcessorConfig} {c d : Course} {cmd : ProcessorCommand} {id : String}
    (h : Shift config c cmd d) (hc : c.Docked) (hin : c.In id .ready) (hprep : c.prepared = true)
    (hmerge : ∀ outcome, cmd ≠ .taskMerged id outcome)
    (hopen : ∀ b base now, cmd ≠ .openCohort b base now) :
    d.In id .ready ∧ d.prepared = true := by
  have hlate : c.phase ≠ .publishing ∧ c.phase ≠ .cleaning := by
    constructor <;> intro hp
    · exact no_iff_not_in.1 (hc.past (.inl (bound_here hp))) id hin
    · exact no_iff_not_in.1 (hc.past (.inr (bound_here hp))) id hin
  have hset : ∀ {k : String} {m : Mark} {ph : TaskPhase}, c.In k ph → ph ≠ .ready →
      (c.setTask k m).In id .ready := by
    intro k m ph hk hne
    refine in_setTask.2 (.inr ⟨?_, hin⟩)
    rintro rfl
    exact hne (in_unique hk hin)
  have hother : ∀ {k : String} {m : Mark}, k ≠ id → (c.setTask k m).In id .ready :=
    fun hne => in_setTask.2 (.inr ⟨hne, hin⟩)
  cases h with
  | resumeJoin _ _ hn | recoverNext _ _ _ _ _ hn =>
    obtain ⟨ht, hp⟩ := hn.keeps
    exact ⟨(in_congr ht).2 hin, hp.trans hprep⟩
  | workspaceReady _ hn =>
    obtain ⟨ht, hp⟩ := hn.keeps
    exact ⟨(in_congr ht).2 hin, hp⟩
  | closeWave _ _ _ hn | advance _ _ _ hn =>
    obtain ⟨ht, hp⟩ := hn.keeps
    exact ⟨(in_congr ht).2 hin, hp.trans hprep⟩
  | halt _ _ hn =>
    obtain ⟨ht, hp⟩ := hn.keeps
    exact ⟨(in_congr ht).2 ((in_escalateActive rfl (by simp)).2 hin), hp.trans hprep⟩
  | openCohort => exact absurd rfl (hopen _ _ _)
  | admitWave hp hb hopen' hnd hfresh =>
    refine ⟨?_, hprep⟩
    simp only [In]
    split
    · rename_i hk
      rw [In, hfresh id hk] at hin
      simp at hin
    · exact hin
  | task harrow hid =>
    refine ⟨hset (in_of_task hid) ?_, hprep⟩
    intro h
    have := harrow.active
    rw [h] at this
    cases this
  | taskReady hp hid => exact ⟨hset (in_of_task hid) (by simp), hprep⟩
  | taskCommitted harrow hid => exact ⟨hset (in_of_task hid) (by simp), hprep⟩
  | @merged k tip sha _ hp hid hn | @quarantined k tip reason _ hp hid hn =>
    obtain ⟨ht, hp'⟩ := hn.keeps
    refine ⟨(in_congr ht).2 (hother (k := k) ?_), hp'.trans hprep⟩
    rintro rfl
    exact hmerge _ rfl
  | @needsResolution k =>
    refine ⟨hother (k := k) ?_, hprep⟩
    rintro rfl
    exact hmerge _ rfl
  | resolved hp hid hr hn | unresolved hp hid hr _ hn =>
    obtain ⟨ht, hp'⟩ := hn.keeps
    exact ⟨(in_congr ht).2 (hset (in_of_task hid) (by simp)), hp'.trans hprep⟩
  | published hp | rejected hp | reanchored hp => exact absurd hp hlate.1
  | ciOpen hobs | ciFailed hobs | ciGivenUp hobs => cases hobs <;> exact ⟨hin, hprep⟩
  | finished hp => exact absurd hp hlate.2
  | _ => exact ⟨hin, hprep⟩

namespace ProcessorRuntime

/-- **A merge is outstanding only for a ready task of a prepared workspace.** -/
def Moored (r : ProcessorRuntime) : Prop :=
  ∀ (id : String) (e : Effect), r.pending["merge-task:" ++ id]? = some e →
    r.processor.course.In id .ready ∧ r.processor.course.prepared = true

/-- What holds of every runtime reached from a fresh one. -/
structure Sailing (r : ProcessorRuntime) : Prop where
  sound : Sound r.processor
  docked : r.processor.course.Docked
  recorded : r.processor.course.Recorded
  moored : r.Moored

variable {eventId : String → String} {r s : ProcessorRuntime}

/-- A merge result that is not a mere reply finds the workspace prepared. -/
theorem Sailing.merge_prepared (hr : r.Sailing) {id now : String} {outcome : MergeOutcome}
    (h : r.next eventId (.apply (.taskMerged id outcome) now) = some s) :
    r.processor.course.prepared = true := by
  obtain ⟨t, ht, -, -, -⟩ := next_apply h
  obtain ⟨ack, hack, hcheck, -, -, -⟩ := transition_spec ht
  obtain rfl : some ("merge-task:" ++ id) = ack := Except.ok.inj hack
  simp only [checkAcknowledgement] at hcheck
  split at hcheck
  · rename_i hmem
    obtain ⟨e, he⟩ := Option.isSome_iff_exists.1 (ExtTreeMap.mem_iff_isSome_getElem?.1 hmem)
    exact (hr.moored id e he).2
  · cases hcheck

/-- A command that opens a cohort waits for an empty ledger. -/
theorem open_empty {b base now : String} {secs : Nat}
    (h : r.next eventId (.apply (.openCohort b base secs) now) = some s) :
    ∀ key : String, r.pending[key]? = none := by
  obtain ⟨t, ht, -, -, -⟩ := next_apply h
  obtain ⟨ack, hack, hcheck, -, -, -⟩ := transition_spec ht
  obtain rfl : none = ack := Except.ok.inj hack
  simp only [checkAcknowledgement] at hcheck
  split at hcheck
  · rename_i hempty
    intro key
    have : r.pending = ∅ := ExtTreeMap.isEmpty_iff.1 hempty
    rw [this]
    simp
  · cases hcheck

theorem Sailing.step (hr : r.Sailing) {step : RuntimeStep} (h : r.next eventId step = some s) :
    s.Sailing := by
  have hmove := next_reducer h
  cases hstep : r.reducerStep step with
  | none =>
    rw [hstep] at hmove
    simp only at hmove
    refine ⟨hmove ▸ hr.sound, hmove ▸ hr.docked, hmove ▸ hr.recorded, fun id e he => ?_⟩
    rw [hmove]
    rcases next_pending h he with ⟨hold, -⟩ | ⟨cmd, now, effects, rfl, -, -, -⟩
    · exact hr.moored id e hold
    · cases hstep
  | some move =>
    rw [hstep] at hmove
    obtain ⟨hk, hm⟩ := Processor.next_moves hr.sound hmove
    have hmerge : ∀ id outcome, move = .apply (.taskMerged id outcome) →
        r.processor.course.prepared = true := by
      rintro id outcome rfl
      cases step with
      | apply cmd now =>
        obtain rfl := ProcessorStep.apply.inj (Option.some.inj hstep)
        exact hr.merge_prepared h
      | complete key =>
        simp only [reducerStep, Option.map_eq_some_iff] at hstep
        obtain ⟨_, -, hstep⟩ := hstep
        cases hstep
      | resume => cases hstep
      | appendOnly | supersede => cases hstep
    refine ⟨hk.sound, hm.docked hr.docked hr.recorded hmerge, hm.recorded hr.recorded, fun id e he => ?_⟩
    rcases next_pending h he with ⟨hold, hnot⟩ | ⟨cmd, now, effects, rfl, happly, hmem, hkey⟩
    · -- an older entry: its task is still ready
      obtain ⟨hin, hprep⟩ := hr.moored id e hold
      generalize s.processor.course = d at hm
      cases hm with
      | stand | noted | journal | restart => exact ⟨hin, hprep⟩
      | shift hstand hshift =>
        cases step with
        | apply cmd now =>
          obtain rfl := ProcessorStep.apply.inj (Option.some.inj hstep)
          refine hshift.ready hr.docked hin hprep ?_ ?_
          · rintro outcome rfl
            exact hnot _ _ rfl rfl
          · rintro b base secs rfl
            rw [open_empty h] at hold
            cases hold
        | complete key =>
          simp only [reducerStep, Option.map_eq_some_iff] at hstep
          obtain ⟨_, -, hstep⟩ := hstep
          cases hstep
        | resume => cases hstep
        | appendOnly | supersede => cases hstep
    · -- a new entry: the turn asked for it
      obtain rfl := mergeTask_of_key hkey
      cases hstand : r.processor.standingReply cmd with
      | some reply =>
        obtain ⟨-, hwait⟩ := Processor.apply_standing happly (by simp [hstand])
        obtain ⟨reason, hreason⟩ := hwait _ hmem
        cases hreason
      | none =>
        rcases Processor.apply_owed hr.sound happly hstand _ hmem with hdue | ⟨next, -, hnext⟩
        · obtain ⟨-, hprep, -, hready⟩ := hdue
          exact ⟨Processor.in_iff.2 hready, hprep⟩
        · rcases hnext with hnext | hnext
          · cases next <;> cases hnext
          · cases hnext

theorem new_sailing {config : ProcessorConfig} (h : new config = .ok r) : r.Sailing := by
  obtain ⟨hp, hpend, -⟩ := new_reducer h
  obtain ⟨-, hs, -, hc⟩ := Processor.new_spec hp
  refine ⟨hs, hc ▸ initial_docked.1, hc ▸ initial_docked.2, fun id e he => ?_⟩
  rw [hpend] at he
  simp at he

end ProcessorRuntime

end Orchestrail
