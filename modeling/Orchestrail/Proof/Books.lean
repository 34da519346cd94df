import Orchestrail.Proof.Accounting

/-!
# The books of an integration

What the integration records about its tasks agrees with their phases, whatever commands arrive in
whatever order: a merged task is `Merged` or `Published`, a published task was merged, a pending
resolution is of a task in `ResolvingMerge`.
-/

namespace Orchestrail

open Course

namespace Course

variable {c d : Course}

/-- **The record of the integration agrees with the phases of its tasks.** -/
structure Books (c : Course) : Prop where
  merged : ∀ id ∈ c.merged, c.In id .merged ∨ c.In id .published
  published : ∀ id, c.In id .published → id ∈ c.merged
  resolving : ∀ id, c.resolving = some id → c.In id .resolvingMerge

theorem in_of_task {id : String} {m : Mark} (h : c.task id = some m) : c.In id m.phase := by
  simp [In, h]

theorem in_unique {id : String} {ph ph' : TaskPhase} (h : c.In id ph) (h' : c.In id ph') : ph = ph' :=
  Option.some.inj (h.symm.trans h')

/-- Changes of the course that its books do not see. -/
theorem Books.congr (hc : c.Books) (ht : d.task = c.task) (hm : d.merged = c.merged)
    (hr : d.resolving = c.resolving) : d.Books := by
  refine ⟨fun id hid => ?_, fun id hid => ?_, fun id hid => ?_⟩
  · rw [in_congr ht, in_congr ht]; exact hc.merged id (hm ▸ hid)
  · rw [hm]; exact hc.published id ((in_congr ht).1 hid)
  · rw [in_congr ht]; exact hc.resolving id (hr ▸ hid)

/-- A task that was in none of the recorded phases may go to any phase but `Published`. -/
theorem Books.setTask (hc : c.Books) {id : String} {m : Mark} {ph : TaskPhase} (hin : c.In id ph)
    (hph : ph ≠ .merged ∧ ph ≠ .published ∧ ph ≠ .resolvingMerge) (hm : m.phase ≠ .published) :
    (c.setTask id m).Books := by
  have hother : ∀ {k : String} {ph' : TaskPhase}, c.In k ph' → ph' ≠ ph → id ≠ k ∧ c.In k ph' :=
    fun hk hne => ⟨fun he => hne (in_unique (he ▸ hk) hin), hk⟩
  refine ⟨fun k hk => ?_, fun k hk => ?_, fun k hk => ?_⟩
  · rw [in_setTask, in_setTask]
    exact (hc.merged k hk).imp (fun h => .inr (hother h (Ne.symm hph.1)))
      (fun h => .inr (hother h (Ne.symm hph.2.1)))
  · rcases in_setTask.1 hk with ⟨-, h⟩ | ⟨-, h⟩
    exacts [absurd h hm, hc.published k h]
  · exact in_setTask.2 (.inr (hother (hc.resolving k hk) (Ne.symm hph.2.2)))

/-- The task of the pending resolution leaves it. -/
theorem Books.settle (hc : c.Books) {id : String} {m : Mark} (hin : c.In id .resolvingMerge)
    (hm : m.phase ≠ .published) : ({ c.setTask id m with resolving := none } : Course).Books := by
  refine ⟨fun k hk => ?_, fun k hk => ?_, fun k hk => by simp at hk⟩
  · refine (hc.merged k hk).imp (fun h => ?_) fun h => ?_
    all_goals
      refine in_setTask.2 (.inr ⟨?_, h⟩)
      rintro rfl
      simpa using in_unique h hin
  · rcases in_setTask.1 hk with ⟨-, h⟩ | ⟨-, h⟩
    exacts [absurd h hm, hc.published k h]

/-- A task in `Merged` is recorded as merged. -/
theorem Books.insert (hc : c.Books) {id : String} (hin : c.In id .merged) :
    ({ c with merged := c.merged.insert id } : Course).Books := by
  refine ⟨fun k hk => ?_, fun k hk => ?_, hc.resolving⟩
  · rw [Std.ExtTreeSet.mem_insert, Std.compare_eq_iff_eq] at hk
    rcases hk with rfl | hk
    exacts [.inl hin, hc.merged k hk]
  · exact Std.ExtTreeSet.mem_insert.2 (.inr (hc.published k hk))

theorem Books.escalateActive (hc : c.Books) : c.escalateActive.Books := by
  refine ⟨fun k hk => ?_, fun k hk => ?_, fun k hk => ?_⟩
  · rw [in_escalateActive rfl (by simp), in_escalateActive rfl (by simp)]; exact hc.merged k hk
  · exact hc.published k ((in_escalateActive rfl (by simp)).1 hk)
  · exact (in_escalateActive rfl (by simp)).2 (hc.resolving k hk)

/-- Moving the whole merged set out of `Merged` without recording it as published. -/
theorem Books.empty (hc : c.Books) {ph : TaskPhase} (hph : ph ≠ .published) :
    ∀ id, ¬(c.moveAll c.merged ph).In id .published := by
  intro id hid
  rcases in_moveAll.1 hid with ⟨-, -, h⟩ | ⟨hnot, h⟩
  exacts [hph h, hnot (hc.published id h)]

/-- A pending resolution is not moved with the merged set. -/
theorem Books.resolving_moveAll (hc : c.Books) (hin : c.MergedIn .merged) {ph : TaskPhase} {id : String}
    (hid : c.resolving = some id) : (c.moveAll c.merged ph).In id .resolvingMerge := by
  have h := hc.resolving id hid
  exact in_moveAll.2 (.inr ⟨fun hm => by simpa using in_unique h (hin id hm), h⟩)

end Course

theorem Next.eq {c d : Course} (h : Next c d) : d = { c with phase := d.phase } := by
  cases h <;> rfl

theorem Closed.eq {c d : Course} (h : Closed c d) : d = { c with phase := d.phase } := by
  cases h <;> rfl

theorem Next.books {c d : Course} (h : Next c d) (hc : c.Books) : d.Books := by
  rw [h.eq]; exact hc.congr rfl rfl rfl

theorem Closed.books {c d : Course} (h : Closed c d) (hc : c.Books) : d.Books := by
  rw [h.eq]; exact hc.congr rfl rfl rfl

theorem Observed.eq {c d : Course} {cmd : ProcessorCommand} {outcome : CiOutcome}
    (h : Observed c cmd outcome d) :
    d = { c with journaled := d.journaled, phase := d.phase } := by
  cases h <;> rfl

theorem Shift.books {config : ProcessorConfig} {c d : Course} {cmd : ProcessorCommand}
    (h : Shift config c cmd d) (hc : c.Books) : d.Books := by
  have hsame : ∀ {e : Course}, e.task = c.task → e.merged = c.merged → e.resolving = c.resolving →
      e.Books := hc.congr
  cases h with
  | stay => exact hc
  | hold | pause | resumeStay | resumeHold | recoverHold | recoverIdle | recoverTo | recoverStop
  | recoverJoin | recoverRoll | refreshOpen | refreshPost | verified | reviewed | findings
  | fixCommitted | reanchorRequired | ciSettled | ciHold | repaired | skipped | reconfirmed =>
    exact hsame rfl rfl rfl
  | resumeJoin _ _ hn | recoverNext _ _ _ _ _ hn | workspaceReady _ hn =>
    exact hn.books (hsame rfl rfl rfl)
  | closeWave _ _ _ hcl | advance _ _ _ hcl => exact hcl.books (hsame rfl rfl rfl)
  | halt _ _ hcl =>
    exact hcl.books (hc.escalateActive.congr rfl rfl rfl)
  | openCohort =>
    exact ⟨fun id hid => by simp at hid, fun id hid => by simp [In] at hid, by simp⟩
  | @admitWave _ _ _ batch ids _ _ _ _ hfresh =>
    have hin : ∀ k ph, ph ≠ .capturing → (In { c with
        batch := batch
        size := c.size + ids.length
        task := fun k => if k ∈ ids then some ⟨.capturing, none⟩ else c.task k } k ph ↔ c.In k ph) := by
      intro k ph hph
      simp only [In]
      split
      · rename_i hk
        simp [hfresh k hk, Ne.symm hph]
      · rfl
    refine ⟨fun k hk => ?_, fun k hk => ?_, fun k hk => ?_⟩
    · rw [hin k _ (by simp), hin k _ (by simp)]; exact hc.merged k hk
    · exact hc.published k ((hin k _ (by simp)).1 hk)
    · exact (hin k _ (by simp)).2 (hc.resolving k hk)
  | @task _ id from_ to_ harrow hid =>
    have hact := harrow.active
    refine hc.setTask (in_of_task hid) ⟨?_, ?_, ?_⟩ harrow.lands.2.2.1 <;>
      (intro h; rw [h] at hact; simp [TaskPhase.isActive] at hact)
  | taskReady _ hid => exact hc.setTask (in_of_task hid) (by simp) (by simp)
  | @taskCommitted id from_ to_ tip harrow hid =>
    exact hc.setTask (in_of_task hid) (by simp) harrow.lands.2.2.1
  | @merged id tip sha _ _ hid hn =>
    have hset := hc.setTask (m := ⟨.merged, some sha⟩) (in_of_task hid) (by simp) (by simp)
    exact hn.books ((hset.insert (in_setTask.2 (.inl ⟨rfl, rfl⟩))).congr rfl rfl rfl)
  | quarantined _ hid hn => exact hn.books (hc.setTask (in_of_task hid) (by simp) (by simp))
  | @needsResolution id tip _ _ _ _ _ hid hnone =>
    have hset := hc.setTask (m := ⟨.resolvingMerge, tip⟩) (in_of_task hid) (by simp) (by simp)
    refine ⟨hset.merged, hset.published, fun k hk => ?_⟩
    obtain rfl := Option.some.inj hk
    exact in_setTask.2 (.inl ⟨rfl, rfl⟩)
  | @resolved id tip sha _ _ hid _ hn =>
    have hset := hc.settle (m := ⟨.merged, some sha⟩) (in_of_task hid) (by simp)
    exact hn.books ((hset.insert (in_setTask.2 (.inl ⟨rfl, rfl⟩))).congr rfl rfl rfl)
  | @unresolved _ id tip _ _ hid _ _ hn =>
    exact hn.books (hc.settle (m := ⟨.conflict, tip⟩) (in_of_task hid) (by simp))
  | @published head pushed hp hne hh hv hin =>
    refine ⟨fun k hk => .inr (in_moveAll.2 (.inl ⟨hk, ?_, rfl⟩)), fun k hk => ?_, fun k hk => ?_⟩
    · obtain ⟨m, hm, -⟩ := Option.map_eq_some_iff.1 (hin k hk)
      simp [hm]
    · rcases in_moveAll.1 hk with ⟨h, -, -⟩ | ⟨-, h⟩
      exacts [h, hc.published k h]
    · exact hc.resolving_moveAll hin hk
  | rejected _ _ hin =>
    refine ⟨fun k hk => by simp at hk, fun k hk => ?_, fun k hk => hc.resolving_moveAll hin hk⟩
    exact absurd hk (hc.empty (by simp) k)
  | reanchored _ _ _ hin =>
    refine ⟨fun k hk => by simp at hk, fun k hk => ?_, fun k hk => by simp at hk⟩
    exact absurd hk (hc.empty (by simp) k)
  | ciOpen hobs | ciFailed hobs | ciGivenUp hobs =>
    rw [hobs.eq]
    exact hsame rfl rfl rfl
  | finished =>
    refine ⟨fun k hk => by simp at hk, fun k hk => ?_, fun k hk => by simp at hk⟩
    simp only [In, Option.map_map] at hk
    cases hm : c.task k with
    | none => simp [hm] at hk
    | some m => by_cases hp : m.phase = .published <;> simp_all

theorem initial_books : Course.initial.Books :=
  ⟨fun id hid => by simp [Course.initial] at hid, fun id hid => by simp [In, Course.initial] at hid,
    by simp [Course.initial]⟩

theorem Moves.books {config : ProcessorConfig} {c d : Course} {step : ProcessorStep}
    (h : Moves config c step d) (hc : c.Books) : d.Books := by
  cases h with
  | stand | noted => exact hc
  | shift _ hshift => exact hshift.books hc
  | journal | restart => exact hc.congr rfl rfl rfl

namespace Course

/-- The phases a cohort works in. -/
def works : Phase → Bool
  | .rolling | .joining | .publishing | .cleaning => true
  | _ => false

/-- **There is a cohort wherever the course works, or returns to work.** -/
structure Manned (c : Course) : Prop where
  batch : ∀ ph, works ph = true → c.bound ph → c.batch.isSome = true
  paused : c.pausedFrom ≠ some .paused

end Course

theorem Closes.isSome {x y : Option CohortRuntime} (h : Closes x y) : y.isSome = x.isSome := by
  cases h <;> rfl

theorem Shift.manned {config : ProcessorConfig} {c d : Course} {cmd : ProcessorCommand}
    (h : Shift config c cmd d) (hc : c.Manned) : d.Manned := by
  have hf := hc.paused
  have hsome : ∀ {e : Course}, e.pausedFrom ≠ some .paused → e.batch.isSome = true → e.Manned :=
    fun hf hb => ⟨fun _ _ _ => hb, hf⟩
  have hsame : ∀ {e : Course}, e.phase = c.phase → e.pausedFrom = c.pausedFrom → e.target = c.target →
      e.batch.isSome = c.batch.isSome → e.Manned := by
    intro e h1 h2 h3 h4
    refine ⟨fun ph hph hb => ?_, by rwa [h2]⟩
    rw [h4]
    exact hc.batch ph hph ((bound_congr h1 h2 h3).1 hb)
  -- a phase that does not work asks for nothing
  have hrest : ∀ {e : Course}, e.pausedFrom ≠ some .paused → e.phase = .blocked ∨ e.phase = .idle →
      e.Manned := by
    intro e h1 h2
    refine ⟨fun ph hph hb => ?_, h1⟩
    rw [bound_iff (by rcases h2 with h | h <;> simp [h]) (by rcases h2 with h | h <;> simp [h])] at hb
    subst hb
    rcases h2 with h | h <;> simp [h, works] at hph
  have hhere : works c.phase = true → c.batch.isSome = true := fun h => hc.batch _ h (.inl rfl)
  have hne : ∀ {ph}, works ph = true → ph ≠ .paused ∧ ph ≠ .recovery := by
    rintro ph h
    constructor <;> (rintro rfl; simp [works] at h)
  cases h with
  | stay => exact hc
  | hold | recoverHold | recoverStop | ciHold => exact hrest hf (.inl rfl)
  | resumeHold => exact hrest (by simp) (.inl rfl)
  | recoverIdle | finished => exact hrest hf (.inr rfl)
  | ciGivenUp hobs => rw [hobs.eq]; exact hrest hf (.inl rfl)
  | pause hp =>
    exact ⟨fun ph hph hb => hc.batch ph hph (bound_pause hb (hne hph).1), by simpa using hp⟩
  | resumeStay hp hphase =>
    subst hphase
    exact ⟨fun ph hph hb => hc.batch ph hph (bound_resume hp hf hb), by simp⟩
  | resumeJoin hp hfrom hn =>
    rw [hn.eq]
    exact hsome (by simp) (hc.batch .joining rfl (.inr (.inl ⟨hp, .inl (by simp [hfrom])⟩)))
  | recoverTo _ hb | recoverJoin _ hb | recoverRoll _ hb => exact hsome hf hb
  | recoverNext _ hb _ _ _ hn => rw [hn.eq]; exact hsome hf hb
  | openCohort => exact hsome hf rfl
  | admitWave _ _ _ _ _ _ hcl => exact hsome hf (hcl.isSome.trans rfl)
  | closeWave hp hcl _ hc' | advance hp hcl _ hc' =>
    rw [hc'.eq]
    exact hsome hf (hcl.isSome.trans (hhere (by simp [hp, works])))
  | halt _ _ hc' => rw [hc'.eq]; exact hsome hf rfl
  | refreshOpen | refreshPost | task | taskReady | taskCommitted | needsResolution | verified
  | reviewed | published | reanchorRequired | repaired | skipped | reconfirmed =>
    exact hsame rfl rfl rfl rfl
  | workspaceReady hp hn | merged hp _ hn | quarantined hp _ hn | resolved hp _ _ hn
  | unresolved hp _ _ _ hn => rw [hn.eq]; exact hsome hf (hhere (by simp [hp, works]))
  | findings hp | fixCommitted hp | rejected hp | reanchored hp | ciSettled hp =>
    exact hsome hf (hhere (by simp [hp, works]))
  | ciOpen hobs | ciFailed hobs =>
    cases hobs with
    | publish hp | archive hp => exact hsome hf (hhere (by simp [hp, works]))

theorem Moves.manned {config : ProcessorConfig} {c d : Course} {step : ProcessorStep}
    (h : Moves config c step d) (hc : c.Manned) : d.Manned := by
  cases h with
  | stand | noted => exact hc
  | shift _ hshift => exact hshift.manned hc
  | journal => exact ⟨hc.batch, hc.paused⟩
  | restart =>
    refine ⟨fun ph hph hb => hc.batch ph hph (bound_restart hb ?_), hc.paused⟩
    rintro rfl; simp [works] at hph

theorem initial_manned : Course.initial.Manned := by
  refine ⟨fun ph hph hb => ?_, by simp [Course.initial]⟩
  rcases hb with h | ⟨h, -⟩ | ⟨-, h | ⟨h, -⟩⟩ <;> simp [Course.initial] at h
  subst h
  simp [works] at hph

end Orchestrail
