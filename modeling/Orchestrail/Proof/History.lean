import Orchestrail.Proof.Admission
import Orchestrail.Proof.Lifecycle

/-!
# What a cohort owes to its past

Over every run of the reducer from its first state, with restarts at any point: every task follows
its graph, and the evidence the late phases rest on was brought about by one step of the run and
stood ever since.
-/

namespace Orchestrail

open Steps Course

section Course

variable {config : ProcessorConfig} {c d : Course} {cmd : ProcessorCommand}

/-- What one accepted command may do to the verified head. -/
inductive Verifies (c : Course) (cmd : ProcessorCommand) (d : Course) : Prop
  | keep : d.head = c.head → d.verified = c.verified → Verifies c cmd d
  | lost : d.verified = none → Verifies c cmd d
  | passed {head outcome} : c.phase = .publishing → c.head = some head →
      cmd = .integrationVerified head outcome →
      (outcome = .passed ∨ ∃ reason, outcome = .exempt reason) →
      d.head = c.head → d.verified = some head → Verifies c cmd d

theorem Shift.verifies (h : Shift config c cmd d) : Verifies c cmd d := by
  cases h with
  | resumeJoin _ _ hn | recoverNext _ _ _ _ _ hn | workspaceReady _ hn | closeWave _ _ _ hn
  | advance _ _ _ hn | halt _ _ hn | quarantined _ _ hn | unresolved _ _ _ _ hn =>
    rw [hn.eq]
    exact .keep rfl rfl
  | merged _ _ hn | resolved _ _ _ hn =>
    rw [hn.eq]
    exact .lost rfl
  | verified hp hhead hout => exact .passed hp hhead rfl hout rfl rfl
  | openCohort | reviewed | findings | fixCommitted | reanchored | finished => exact .lost rfl
  | ciOpen hobs | ciFailed hobs | ciGivenUp hobs => cases hobs <;> exact .keep rfl rfl
  | _ => exact .keep rfl rfl

theorem Moves.verifies {step : ProcessorStep} (h : Moves config c step d) :
    (d.head = c.head ∧ d.verified = c.verified) ∨ ∃ cmd, step = .apply cmd ∧ Verifies c cmd d := by
  cases h with
  | shift _ h => exact .inr ⟨_, rfl, h.verifies⟩
  | stand | noted | journal | restart => exact .inl ⟨rfl, rfl⟩

/-- A verified head is the head of the integration. -/
def UpToDate (c : Course) : Prop := ∀ head, c.verified = some head → c.head = some head

theorem Moves.current {step : ProcessorStep} (h : Moves config c step d) (hc : UpToDate c) :
    UpToDate d := by
  intro head hd
  rcases h.verifies with ⟨hh, hv⟩ | ⟨cmd, -, hv⟩
  · rw [hh]
    exact hc head (hv ▸ hd)
  · cases hv with
    | keep hh hv =>
      rw [hh]
      exact hc head (hv ▸ hd)
    | lost hnone => rw [hnone] at hd; cases hd
    | passed _ hhead _ _ hh hv =>
      rw [hh, hhead]
      exact hv.symm.trans hd

/-- What a passed archive gate rested on when it was set. -/
inductive GateEvidence (c : Course) : ProcessorCommand → Prop
  | skipped : c.No (· = .merged) → (∀ id ∈ c.merged, c.In id .published ∨ c.In id .done) →
      (∀ id, c.In id .published → id ∈ c.merged) →
      (c.merged.isEmpty = false →
        c.publishedHead.isSome = true ∧ c.pushed.isSome = true ∧ c.ci.isSome = true) →
      GateEvidence c (.archivalPrepared .skipped)
  | confirmed {head} : c.publishedHead = some head → c.pushed = some true →
      c.ci = some .confirmed → GateEvidence c (.archiveCiReconfirmed head .passed)

/-- What one accepted command may do to the archive gate. -/
inductive Gates (c : Course) (cmd : ProcessorCommand) (d : Course) : Prop
  | keep : d.gate = c.gate → Gates c cmd d
  | lost : d.gate = none → Gates c cmd d
  | settled : c.phase = .cleaning → c.journaled = true → GateEvidence c cmd → Gates c cmd d

theorem Shift.gates (h : Shift config c cmd d) : Gates c cmd d := by
  cases h with
  | resumeJoin _ _ hn | recoverNext _ _ _ _ _ hn | workspaceReady _ hn | closeWave _ _ _ hn
  | advance _ _ _ hn | halt _ _ hn | merged _ _ hn | quarantined _ _ hn | resolved _ _ _ hn
  | unresolved _ _ _ _ hn =>
    rw [hn.eq]
    exact .keep rfl
  | skipped hp hj _ _ hno hin hpub hci => exact .settled hp hj (.skipped hno hin hpub hci)
  | reconfirmed hp hj _ hhead hpushed hci => exact .settled hp hj (.confirmed hhead hpushed hci)
  | openCohort | published | repaired | finished => exact .lost rfl
  | ciOpen hobs | ciFailed hobs | ciGivenUp hobs => cases hobs <;> exact .keep rfl
  | _ => exact .keep rfl

/-- A gate that is set by a move was set by a command that found the cohort settled. -/
theorem Moves.gates {step : ProcessorStep} (h : Moves config c step d) (hc : c.gate = none)
    (hd : d.gate.isSome = true) :
    ∃ cmd, step = .apply cmd ∧ c.phase = .cleaning ∧ c.journaled = true ∧ GateEvidence c cmd := by
  cases h with
  | shift _ h =>
    refine ⟨_, rfl, ?_⟩
    cases h.gates with
    | keep hg => rw [hg, hc] at hd; cases hd
    | lost hg => rw [hg] at hd; cases hd
    | settled hp hj hs => exact ⟨hp, hj, hs⟩
  | stand | noted | journal | restart => rw [hc] at hd; cases hd

/-- What a move does to a task. -/
theorem Moves.taskStep {step : ProcessorStep} (h : Moves config c step d) (id : String) :
    d.task id = c.task id ∨
      ∃ cmd, step = .apply cmd ∧ TaskStep c cmd id (c.task id) (d.task id) := by
  cases h with
  | shift _ h => exact .inr ⟨_, rfl, h.taskStep id⟩
  | stand | noted | journal | restart => exact .inl rfl

/-- The end of a cohort. -/
theorem Shift.ends (h : Shift config c .cleanupComplete d) (hp : c.phase ≠ .idle)
    (hd : d.phase = .idle) :
    c.phase = .cleaning ∧ c.No (· = .merged) ∧ c.gate.isSome = true ∧ c.refreshedPost = true := by
  generalize hcmd : ProcessorCommand.cleanupComplete = cmd at h
  cases h with
  | finished hc hno hg hr => exact ⟨hc, hno, hg, hr⟩
  | stay => exact absurd hd hp
  | hold hhold => subst hcmd; simp [mayHold] at hhold
  | halt _ hex => subst hcmd; simp [exhausts] at hex
  | task _ _ _ _ => exact absurd hd hp
  | taskReady => exact absurd hd hp
  | unresolved _ _ _ hc =>
    obtain ⟨reason, h | h⟩ := hc <;> rw [h] at hcmd <;> cases hcmd
  | ciOpen hobs | ciFailed hobs | ciGivenUp hobs => cases hobs <;> cases hcmd
  | ciHold _ _ _ hc => obtain ⟨o, h⟩ | ⟨o, h⟩ := hc <;> rw [h] at hcmd <;> cases hcmd
  | _ => cases hcmd

/-- The publication of a head. -/
theorem Shift.publishes {head : String} {pushed : Bool}
    (h : Shift config c (.published head pushed) d) :
    c.head = some head ∧ c.verified = some head := by
  generalize hcmd : ProcessorCommand.published head pushed = cmd at h
  cases h with
  | published _ _ hhead hver =>
    obtain ⟨rfl, -⟩ := ProcessorCommand.published.inj hcmd
    exact ⟨hhead, hver⟩
  | stay hsilent => subst hcmd; simp [silent] at hsilent
  | hold hhold => subst hcmd; simp [mayHold] at hhold
  | halt _ hex => subst hcmd; simp [exhausts] at hex
  | task _ _ _ hc =>
    subst hcmd
    rcases hc with hc | hc | ⟨reason, hc⟩
    · simp [silent] at hc
    · cases hc
    · cases hc
  | taskReady _ _ hclean => subst hcmd; simp [cleanReview] at hclean
  | unresolved _ _ _ hc =>
    obtain ⟨reason, h | h⟩ := hc <;> rw [h] at hcmd <;> cases hcmd
  | ciOpen hobs | ciFailed hobs | ciGivenUp hobs => cases hobs <;> cases hcmd
  | ciHold _ _ _ hc => obtain ⟨o, h⟩ | ⟨o, h⟩ := hc <;> rw [h] at hcmd <;> cases hcmd
  | _ => cases hcmd

/-- A task stays in the cohort as long as no other is opened. -/
theorem TaskStep.stays {id : String} {m : Mark} {o : Option Mark}
    (h : TaskStep c cmd id (some m) o)
    (hopen : ∀ batch base now, cmd ≠ .openCohort batch base now) :
    ∃ n, o = some n ∧ (n.phase = m.phase ∨ m.phase.Leads n.phase) := by
  cases o with
  | none =>
    cases h with
    | cleared hc => exact absurd hc (hopen _ _ _)
  | some n => exact ⟨n, rfl, h.leads⟩

end Course

namespace Processor

variable {config : ProcessorConfig} {p0 p q : Processor}
  {past tr : List (Processor × ProcessorStep)} {id : String} {t : TaskRuntime}

theorem sound_of_run (hnew : Processor.new config = .ok p0) (hrun : Run Processor.next p0 tr p) :
    Sound p := by
  obtain ⟨-, hs, -, -⟩ := new_spec hnew
  have hreach : Reach Processor.next (fun _ _ => True) p0 p := hrun.reach fun _ _ => trivial
  exact hreach.invariant hs fun _ _ _ hr _ hn => (next_moves hr hn).1.sound

theorem move_of_run (hnew : Processor.new config = .ok p0) (hrun : Run Processor.next p0 tr p)
    {step : ProcessorStep} (hn : p.next step = some q) :
    Moves p.config p.course step q.course :=
  (next_moves (sound_of_run hnew hrun) hn).2

/-- The head of a reachable state that is verified is the head of its integration. -/
theorem current_of_run (hnew : Processor.new config = .ok p0) (hrun : Run Processor.next p0 tr p) :
    UpToDate p.course := by
  obtain ⟨-, hs, -, hc⟩ := new_spec hnew
  have h0 : UpToDate p0.course := by
    rw [hc]
    intro head h
    cases h
  have hreach : Reach Processor.next (fun _ _ => True) p0 p := hrun.reach fun _ _ => trivial
  exact (reach_course hreach hs h0 fun _ _ _ hcur _ _ hm => hm.current hcur).2.2

theorem task_of_course {m : Mark} (h : p.course.task id = some m) :
    ∃ t, p.state.tasks[id]? = some t ∧ t.phase = m.phase ∧ t.reviewSha = m.tip := by
  obtain ⟨t, ht, rfl⟩ := Option.map_eq_some_iff.1 h
  exact ⟨t, ht, rfl, rfl⟩

theorem course_of_task (h : p.state.tasks[id]? = some t) :
    p.course.task id = some ⟨t.phase, t.reviewSha⟩ := by
  simp only [course, h, Option.map_some]
  rfl

theorem task_none (hnew : Processor.new config = .ok p0) : p0.course.task id = none := by
  obtain ⟨-, -, -, hc⟩ := new_spec hnew
  rw [hc]
  rfl

/-! ## The runs -/

/-- A run of the reducer is a run of the abstract course, and keeps its data valid. -/
theorem path_of_run (hnew : Processor.new config = .ok p0) (hrun : Run Processor.next p0 tr p) :
    (Sound p ∧ p.config = config) ∧
      Path (Moves config) Course.initial (tr.map (·.2)) p.course := by
  obtain ⟨-, hs, hconfig, hc⟩ := new_spec hnew
  have hpath : (Sound p ∧ p.config = config) ∧
      Path (Moves config) p0.course (tr.map (·.2)) p.course := by
    refine hrun.path Processor.course (fun p => Sound p ∧ p.config = config) ⟨hs, hconfig⟩ ?_
    rintro r step u ⟨hr, rfl⟩ hn
    obtain ⟨hk, hm⟩ := next_moves hr hn
    exact ⟨⟨hk.sound, hk.config⟩, hm⟩
  rwa [hc] at hpath

section Sample

/-- A phase 2 whose only task is ready. -/
def readyCohort : List ProcessorStep := cohortOf [proposal "T-1" "a/**"] ++ reviewed "T-1" "c1"

/-- A phase 5 whose only task is merged and reviewed. -/
def mergedCohort : List ProcessorStep :=
  readyCohort ++ [.apply (.admitWave [] 0), .apply .integrationWorkspaceReady,
    .apply (.taskMerged "T-1" (.merged "m1")), .apply (.integrationReview (.clean "m1"))]

def verifiedCohort : List ProcessorStep :=
  mergedCohort ++ [.apply (.integrationVerified "m1" .passed)]

def publishedCohort : List ProcessorStep :=
  verifiedCohort ++ [.apply (.published "m1" false)]

/-- A phase 6 that is done, after a publication that is not pushed. -/
def archivedCohort : List ProcessorStep :=
  publishedCohort ++ [.apply (.ciVerified .localOnly)] ++ windDown

/-- Where the sample cohorts arrive, evaluated once for all of them. -/
theorem sample_runs :
    (exec Processor.next fresh readyCohort).any (fun p => p.taskList.any fun t =>
      decide (t.phase = .ready) && decide (t.reviewCycles = 1)) = true ∧
    (exec Processor.next fresh mergedCohort).any (fun p =>
      ((p.apply (.integrationVerified "m1" .passed)).toOption.map (·.2)).any fun effects =>
        decide (.publish "B-1" ∈ effects)) = true ∧
    (exec Processor.next fresh verifiedCohort).any (fun p =>
      decide (p.standingReply (.published "m1" false) = none) &&
        (p.apply (.published "m1" false)).toOption.isSome) = true ∧
    (exec Processor.next fresh publishedCohort).any (fun p =>
      p.taskList.any (·.phase = .published)) = true ∧
    (exec Processor.next fresh archivedCohort).any (fun p => decide (p.state.phase ≠ .idle) &&
      (p.next (.apply .cleanupComplete)).any (·.state.phase = .idle)) = true ∧
    (exec Processor.next fresh (archivedCohort ++ [.apply .cleanupComplete])).any (fun p =>
      p.taskList.any (·.phase = .done)) = true := by
  decide +kernel

end Sample

/-! ## The graph over runs -/

/-- **A task follows its graph as long as its cohort lasts, and rests where it ends.** -/
theorem task_lifecycle (hnew : Processor.new config = .ok p0) (hpast : Run Processor.next p0 past p)
    (hrun : Run Processor.next p tr q)
    (hopen : ∀ x ∈ tr, ∀ batch base now, x.2 ≠ .apply (.openCohort batch base now))
    (ht : p.state.tasks[id]? = some t) :
    ∃ u, q.state.tasks[id]? = some u ∧ Relation.ReflTransGen TaskPhase.Leads t.phase u.phase ∧
      (t.phase = .done ∨ t.phase = .conflict ∨ t.phase = .escalated → u.phase = t.phase) := by
  induction hrun with
  | nil => exact ⟨t, ht, .refl, fun _ => rfl⟩
  | @snoc tr r step s hr hn ih =>
    obtain ⟨u, hu, hpath, hrest⟩ := ih fun x hx => hopen x (List.mem_append_left _ hx)
    have hmove := move_of_run hnew (hpast.append hr) hn
    rcases hmove.taskStep id with hsame | ⟨cmd, rfl, hstep⟩
    · rw [course_of_task hu] at hsame
      obtain ⟨v, hv, hph, -⟩ := task_of_course hsame
      exact ⟨v, hv, hph ▸ hpath, fun hend => hph.trans (hrest hend)⟩
    · rw [course_of_task hu] at hstep
      obtain ⟨n, hn', hlead⟩ := hstep.stays fun batch base now hc =>
        hopen (r, .apply cmd) (by simp) batch base now (by rw [hc])
      obtain ⟨v, hv, hph, -⟩ := task_of_course hn'
      refine ⟨v, hv, ?_, fun hend => ?_⟩
      · rcases hlead with hsame | hlead
        · rw [hph, hsame]
          exact hpath
        · rw [hph]
          exact hpath.tail hlead
      · rcases hlead with hsame | hlead
        · rw [hph, hsame]
          exact hrest hend
        · obtain ⟨h1, h2, h3⟩ := hlead.alive
          have hu' : u.phase = t.phase := hrest hend
          rw [hu'] at h1 h2 h3
          rcases hend with h | h | h
          exacts [absurd h h1, absurd h h2, absurd h h3]

theorem task_lifecycle_done :
    ∃ tr p, Run Processor.next fresh tr p ∧ ∀ q more, Run Processor.next p more q →
      (∀ x ∈ more, ∀ batch base now, x.2 ≠ .apply (.openCohort batch base now)) →
      ∃ (id : String) (u : TaskRuntime), q.state.tasks[id]? = some u ∧ u.phase = .done := by
  obtain ⟨-, -, -, -, -, hrun⟩ := sample_runs
  obtain ⟨tr, p, hr, -, hp⟩ := run_of_exec hrun
  obtain ⟨id, t, ht, hph⟩ := Table.any_vals.1 hp
  have hdone : t.phase = .done := by simpa using hph
  refine ⟨tr, p, hr, fun q more hmore hopen => ?_⟩
  obtain ⟨u, hu, -, hrest⟩ := task_lifecycle fresh_new hr hmore hopen ht
  exact ⟨id, u, hu, (hrest (.inl hdone)).trans hdone⟩

/-! ## Where the evidence comes from -/

/-- The step makes a task ready: a clean review of the tip under review, or a re-anchor. -/
def makesReady (id : String) (tip : Option String) (r : Processor) (step : ProcessorStep) : Prop :=
  (∃ cmd sha, step = .apply cmd ∧ tip = some sha ∧ cleanReview id cmd = some sha ∧
    r.course.task id = some ⟨.reviewing, some sha⟩) ∨
  step = .apply .publicationReanchored ∧ r.course.task id = some ⟨.merged, tip⟩

/-- **A task that is ready was cleanly reviewed at the tip recorded for it**, or came back from a
publication that is re-anchored, and nothing touched it since. -/
theorem ready_reviewed (hnew : Processor.new config = .ok p0) (hrun : Run Processor.next p0 tr p)
    (ht : p.state.tasks[id]? = some t) (hready : t.phase = .ready) :
    Since tr (makesReady id t.reviewSha)
      fun r => r.course.task id = some ⟨.ready, t.reviewSha⟩ := by
  refine hrun.since (by rw [task_none hnew]; simp) (hready ▸ course_of_task ht) ?_
  intro pre r step u hr hno hn hu
  rcases (move_of_run hnew hr hn).taskStep id with hsame | ⟨cmd, rfl, hstep⟩
  · exact absurd (hsame.symm.trans hu) hno
  · rw [hu] at hstep
    rcases hstep.ready hno with ⟨sha, htip, hclean, -, hmark⟩ | ⟨rfl, hmark⟩
    exacts [.inl ⟨cmd, sha, rfl, htip, hclean, hmark⟩, .inr ⟨rfl, hmark⟩]

theorem ready_reviewed_clean :
    ∃ (tr : List (Processor × ProcessorStep)) (id : String) (tip : Option String),
      Since tr (makesReady id tip) fun r => r.course.task id = some ⟨.ready, tip⟩ := by
  obtain ⟨hrun, -⟩ := sample_runs
  obtain ⟨tr, p, hr, -, hp⟩ := run_of_exec hrun
  obtain ⟨id, t, ht, hph⟩ := Table.any_vals.1 hp
  simp only [Bool.and_eq_true, decide_eq_true_eq] at hph
  exact ⟨tr, id, t.reviewSha, ready_reviewed fresh_new hr ht hph.1⟩

/-- The step verifies a head that is the head of the integration. -/
def verifies (head : String) (r : Processor) (step : ProcessorStep) : Prop :=
  r.state.phase = .publishing ∧ r.state.integration.integrationHead = some head ∧
    ∃ outcome, step = .apply (.integrationVerified head outcome) ∧
      (outcome = .passed ∨ ∃ reason, outcome = .exempt reason)

/-- The verified head stands, and is the head of the integration. -/
def standsVerified (head : String) (r : Processor) : Prop :=
  r.state.integration.verificationHead = some head ∧
    r.state.integration.integrationHead = some head

theorem verified_since (hnew : Processor.new config = .ok p0) (hrun : Run Processor.next p0 tr p)
    {head : String} (h : p.state.integration.verificationHead = some head) :
    Since tr (verifies head) (standsVerified head) := by
  have hboth : standsVerified head p := ⟨h, current_of_run hnew hrun head h⟩
  refine hrun.since (fun h0 => ?_) hboth ?_
  · obtain ⟨-, -, -, hc⟩ := new_spec hnew
    have hnone : p0.course.verified = none := by rw [hc]; rfl
    rw [show p0.course.verified = some head from h0.1] at hnone
    cases hnone
  · intro pre r step u hr hno hn hu
    have hnot : r.course.verified ≠ some head := fun hv =>
      hno ⟨hv, current_of_run hnew hr head hv⟩
    have huv : u.course.verified = some head := hu.1
    rcases (move_of_run hnew hr hn).verifies with ⟨-, hv⟩ | ⟨cmd, rfl, hv⟩
    · exact absurd (hv.symm.trans huv) hnot
    · cases hv with
      | keep _ hv => exact absurd (hv.symm.trans huv) hnot
      | lost hv => rw [hv] at huv; cases huv
      | @passed head' outcome hp hhead hcmd hout _ hv =>
        obtain rfl : head' = head := Option.some.inj (hv.symm.trans huv)
        exact ⟨hp, hhead, outcome, by rw [hcmd], hout⟩

/-- **What is published was verified.** The head is that of the integration, its verification passed
or was exempt, and no merge, clean review or fix came in between. -/
theorem published_verified (hnew : Processor.new config = .ok p0)
    (hrun : Run Processor.next p0 tr p) {head : String} {pushed : Bool} {effects : List Effect}
    (h : p.apply (.published head pushed) = .ok (q, effects))
    (hgo : p.standingReply (.published head pushed) = none) :
    standsVerified head p ∧ Since tr (verifies head) (standsVerified head) := by
  have hs := sound_of_run hnew hrun
  rcases apply_cases h with ⟨hstand, -⟩ | ⟨-, more, hd⟩
  · rw [hgo] at hstand
    cases hstand
  · obtain ⟨hhead, hver⟩ := (dispatch_refines hs hd).2.publishes
    exact ⟨⟨hver, hhead⟩, verified_since hnew hrun hver⟩

theorem published_verified_passed :
    ∃ tr p, Run Processor.next fresh tr p ∧ standsVerified "m1" p ∧
      Since tr (verifies "m1") (standsVerified "m1") := by
  obtain ⟨-, -, hrun, -⟩ := sample_runs
  obtain ⟨tr, p, hr, -, hp⟩ := run_of_exec hrun
  simp only [Bool.and_eq_true, decide_eq_true_eq] at hp
  cases h : p.apply (.published "m1" false) with
  | error error => simp [h, Except.toOption] at hp
  | ok x =>
    obtain ⟨q, effects⟩ := x
    exact ⟨tr, p, hr, published_verified fresh_new hr h hp.1⟩

/-- The step publishes a merged task with the verified head of its integration. -/
def publishes (id : String) (tip : Option String) (r : Processor) (step : ProcessorStep) : Prop :=
  ∃ head pushed, step = .apply (.published head pushed) ∧ standsVerified head r ∧
    id ∈ r.state.integration.mergedTasks ∧ r.course.task id = some ⟨.merged, tip⟩

/-- **A published task was merged, and published with a verified head.** -/
theorem task_published (hnew : Processor.new config = .ok p0) (hrun : Run Processor.next p0 tr p)
    (ht : p.state.tasks[id]? = some t) (hpub : t.phase = .published) :
    Since tr (publishes id t.reviewSha)
      fun r => r.course.task id = some ⟨.published, t.reviewSha⟩ := by
  refine hrun.since (by rw [task_none hnew]; simp) (hpub ▸ course_of_task ht) ?_
  intro pre r step u hr hno hn hu
  rcases (move_of_run hnew hr hn).taskStep id with hsame | ⟨cmd, rfl, hstep⟩
  · exact absurd (hsame.symm.trans hu) hno
  · rw [hu] at hstep
    obtain ⟨head, pushed, rfl, hid, hmark, hhead, hver⟩ := hstep.publishes hno
    exact ⟨head, pushed, rfl, ⟨hver, hhead⟩, hid, hmark⟩

theorem task_published_merged :
    ∃ (tr : List (Processor × ProcessorStep)) (id : String) (tip : Option String),
      Since tr (publishes id tip) fun r => r.course.task id = some ⟨.published, tip⟩ := by
  obtain ⟨-, -, -, hrun, -⟩ := sample_runs
  obtain ⟨tr, p, hr, -, hp⟩ := run_of_exec hrun
  obtain ⟨id, t, ht, hph⟩ := Table.any_vals.1 hp
  exact ⟨tr, id, t.reviewSha, task_published fresh_new hr ht (by simpa using hph)⟩

/-- The step passes the archive gate of a journaled phase 6 on the evidence of the cohort. -/
def passesGate (r : Processor) (step : ProcessorStep) : Prop :=
  r.state.phase = .cleaning ∧ r.state.integration.cleanupJournaled = true ∧
    ∃ cmd, step = .apply cmd ∧ GateEvidence r.course cmd

/-- **A cohort ends only behind its archive gate**: with no task merely merged, and with a gate that
was passed on settled evidence and stood ever since. -/
theorem archived_settled (hnew : Processor.new config = .ok p0)
    (hrun : Run Processor.next p0 tr p) (hn : p.next (.apply .cleanupComplete) = some q)
    (hp : p.state.phase ≠ .idle) (hq : q.state.phase = .idle) :
    p.state.phase = .cleaning ∧ p.course.No (· = .merged) ∧
      Since tr passesGate fun r => r.state.integration.archiveCiGate.isSome = true := by
  have hmove := move_of_run hnew hrun hn
  obtain ⟨hphase, hno, hgate⟩ :
      p.course.phase = .cleaning ∧ p.course.No (· = .merged) ∧ p.course.gate.isSome = true := by
    have hq' : q.course.phase = .idle := hq
    generalize q.course = d at hmove hq'
    cases hmove with
    | stand => exact absurd hq' hp
    | shift _ hshift =>
      obtain ⟨h1, h2, h3, -⟩ := hshift.ends hp hq'
      exact ⟨h1, h2, h3⟩
  refine ⟨hphase, hno, hrun.since (fun h0 => ?_) hgate ?_⟩
  · obtain ⟨-, -, -, hc⟩ := new_spec hnew
    have hnone : p0.course.gate = none := by rw [hc]; rfl
    have hsome : p0.course.gate.isSome = true := h0
    rw [hnone] at hsome
    cases hsome
  · intro pre r step u hr hnot hn hu
    have hnone : r.course.gate = none := by
      have hg : ¬r.course.gate.isSome = true := hnot
      simpa using hg
    obtain ⟨cmd, rfl, hp, hj, he⟩ := (move_of_run hnew hr hn).gates hnone hu
    exact ⟨hp, hj, cmd, rfl, he⟩

theorem archived_settled_published :
    ∃ tr p, Run Processor.next fresh tr p ∧ p.state.phase = .cleaning ∧
      Since tr passesGate fun r => r.state.integration.archiveCiGate.isSome = true := by
  obtain ⟨-, -, -, -, hrun, -⟩ := sample_runs
  obtain ⟨tr, p, hr, -, hp⟩ := run_of_exec hrun
  simp only [Bool.and_eq_true, Option.any_eq_true, decide_eq_true_eq] at hp
  obtain ⟨hne, q, hn, hq⟩ := hp
  obtain ⟨hphase, -, hsince⟩ := archived_settled fresh_new hr hn hne hq
  exact ⟨tr, p, hr, hphase, hsince⟩

/-! ## Reviews and effects -/

/-- A task has had no more reviews than the limit, and fewer while one is due. -/
def WithinBudget (limit : Nat) (t : TaskRuntime) : Prop :=
  t.reviewCycles ≤ limit ∧ (t.phase = .reviewing → t.reviewCycles < limit)

theorem Evolves.withinBudget {limit : Nat} {t u : TaskRuntime} (h : Evolves limit t u)
    (ht : WithinBudget limit t) : WithinBudget limit u := by
  cases h.turned with
  | still hph hcycles => exact ⟨hcycles ▸ ht.1, fun hu => hcycles ▸ ht.2 (hph ▸ hu)⟩
  | onward _ hcycles hdue => exact ⟨hcycles ▸ ht.1, hdue⟩
  | review hph hcycles _ hdue =>
    refine ⟨?_, hdue⟩
    have hlt := ht.2 hph
    have hle : u.reviewCycles ≤ t.reviewCycles + 1 := by
      rw [hcycles]
      exact Nat.min_le_left _ _
    omega
  | reopened _ hph hcycles => exact ⟨hcycles ▸ ht.1, fun hu => by simp [hph] at hu⟩

/-- **No task is reviewed past the limit**, in any run. -/
theorem review_budget (hnew : Processor.new config = .ok p0) (hrun : Run Processor.next p0 tr p)
    (ht : p.state.tasks[id]? = some t) : WithinBudget config.reviewLoopMax.toNat t := by
  obtain ⟨-, hs, hconfig, -⟩ := new_spec hnew
  have hreach : Reach Processor.next (fun _ _ => True) p0 p := hrun.reach fun _ _ => trivial
  have hall : (Sound p ∧ p.config = config) ∧ ∀ (id : String) (t : TaskRuntime),
      p.state.tasks[id]? = some t → WithinBudget config.reviewLoopMax.toNat t := by
    refine hreach.invariant (I := fun p => (Sound p ∧ p.config = config) ∧
      ∀ (id : String) (t : TaskRuntime), p.state.tasks[id]? = some t →
        WithinBudget config.reviewLoopMax.toNat t) ⟨⟨hs, hconfig⟩, fun id t ht => ?_⟩ ?_
    · have hnone : p0.course.task id = none := task_none hnew
      rw [course_of_task ht] at hnone
      cases hnone
    · rintro r step u ⟨⟨hr, rfl⟩, hall⟩ - hn
      have hk := (next_moves hr hn).1
      refine ⟨⟨hk.sound, hk.config⟩, fun id v hv => ?_⟩
      rcases next_tasks hr hn with hf | ⟨selected, effects, hw⟩
      · obtain ⟨t, ht, hev⟩ := hf id v hv
        exact Evolves.withinBudget hev (hall id t ht)
      · obtain ⟨wave, hadmitted⟩ := hw.admitted
        by_cases hid : id ∈ selected.map (·.id)
        · obtain ⟨c, hc, rfl⟩ := List.mem_map.1 hid
          obtain rfl := Option.some.inj ((hadmitted c hc).symm.trans hv)
          exact ⟨Nat.zero_le _, fun h => by cases h⟩
        · exact hall id v ((hw.kept id hid).symm.trans hv)
  exact hall.2 id t ht

theorem review_budget_reviewed :
    ∃ (id : String) (t : TaskRuntime), t.phase = .ready ∧ t.reviewCycles = 1 ∧
      WithinBudget (ProcessorConfig.reviewLoopMax {}).toNat t ∧ t.id = id := by
  obtain ⟨hrun, -⟩ := sample_runs
  obtain ⟨tr, p, hr, -, hp⟩ := run_of_exec hrun
  obtain ⟨id, t, ht, hph⟩ := Table.any_vals.1 hp
  simp only [Bool.and_eq_true, decide_eq_true_eq] at hph
  exact ⟨t.id, t, hph.1, hph.2, review_budget fresh_new hr ht, rfl⟩

/-- What a sound reducer asks for is due. -/
theorem owed_of_apply (hs : Sound p) {cmd : ProcessorCommand} {effects : List Effect}
    (h : p.apply cmd = .ok (q, effects)) : ∀ e ∈ effects, Owed cmd q e := by
  cases hstand : p.standingReply cmd with
  | none => exact apply_owed hs h hstand
  | some reply =>
    intro e he
    obtain ⟨reason, rfl⟩ := (apply_standing h (by simp [hstand])).2 e he
    exact .inl trivial

/-- **Every effect the reducer asks for is due**, in every run: a publication only with the verified
head of the integration, a merge only of a ready task, an archive only behind the gate, and so on
for each kind. -/
theorem effects_due (hnew : Processor.new config = .ok p0) (hrun : Run Processor.next p0 tr p)
    {cmd : ProcessorCommand} {effects : List Effect} (h : p.apply cmd = .ok (q, effects)) :
    ∀ e ∈ effects, Owed cmd q e :=
  owed_of_apply (sound_of_run hnew hrun) h

theorem effects_due_publish :
    ∃ (q : Processor) (effects : List Effect), .publish "B-1" ∈ effects ∧
      ∀ e ∈ effects, Owed (.integrationVerified "m1" .passed) q e := by
  obtain ⟨-, hrun, -⟩ := sample_runs
  obtain ⟨tr, p, hr, -, hp⟩ := run_of_exec hrun
  cases h : p.apply (.integrationVerified "m1" .passed) with
  | error error => simp [h, Except.toOption] at hp
  | ok x =>
    obtain ⟨q, effects⟩ := x
    have hmem : .publish "B-1" ∈ effects := by simpa [h, Except.toOption] using hp
    exact ⟨q, effects, hmem, effects_due fresh_new hr h⟩

end Processor

end Orchestrail
