import Orchestrail.Lib.Since
import Orchestrail.Proof.Books

/-!
# The life of a task

One accepted command moves a task along one edge of a fixed graph, from its capture to a terminal
phase. A task becomes ready by a clean review of the tip recorded for it, or by a publication that
is re-anchored.
-/

namespace Orchestrail

open Steps Course

/-- What one accepted command may do to one task. -/
inductive TaskStep (c : Course) (cmd : ProcessorCommand) (id : String) :
    Option Mark → Option Mark → Prop
  | same {o} : TaskStep c cmd id o o
  | admitted {candidates now} : cmd = .admitWave candidates now →
      TaskStep c cmd id none (some ⟨.capturing, none⟩)
  | cleared {o batch base now} : cmd = .openCohort batch base now → TaskStep c cmd id o none
  | arrow {m ph tip} : Arrow c.phase m.phase ph → TaskStep c cmd id (some m) (some ⟨ph, tip⟩)
  | escalated {m} : m.phase.isActive = true →
      TaskStep c cmd id (some m) (some { m with phase := .escalated })
  | reviewed {tip} : c.phase = .rolling → cleanReview id cmd = some tip →
      TaskStep c cmd id (some ⟨.reviewing, some tip⟩) (some ⟨.ready, some tip⟩)
  | merged {m sha} : m.phase = .ready ∧ cmd = .taskMerged id (.merged sha) ∨
        m.phase = .resolvingMerge ∧ cmd = .mergeResolutionFinalized id (.merged sha) →
      TaskStep c cmd id (some m) (some ⟨.merged, some sha⟩)
  | quarantined {m} : m.phase = .ready ∨ m.phase = .resolvingMerge →
      TaskStep c cmd id (some m) (some { m with phase := .conflict })
  | conflicted {m} : m.phase = .ready →
      TaskStep c cmd id (some m) (some { m with phase := .resolvingMerge })
  | published {m head pushed} : m.phase = .merged → id ∈ c.merged →
      cmd = .published head pushed → c.head = some head → c.verified = some head →
      TaskStep c cmd id (some m) (some { m with phase := .published })
  | rejected {m} : m.phase = .merged →
      TaskStep c cmd id (some m) (some { m with phase := .escalated })
  | reanchored {m} : m.phase = .merged → cmd = .publicationReanchored →
      TaskStep c cmd id (some m) (some { m with phase := .ready })
  | done {m} : m.phase = .published → cmd = .cleanupComplete → c.gate.isSome = true →
      TaskStep c cmd id (some m) (some { m with phase := .done })

section Course

variable {config : ProcessorConfig} {c d : Course} {cmd : ProcessorCommand}

/-- A command that sets the mark of one task does the same to every other. -/
theorem TaskStep.setTask {k : String} {m n : Mark} (hm : c.task k = some m)
    (h : TaskStep c cmd k (some m) (some n)) (id : String) :
    TaskStep c cmd id (c.task id) ((c.setTask k n).task id) := by
  simp only [Course.setTask]
  by_cases hk : k = id
  · subst hk
    rw [if_pos rfl, hm]
    exact h
  · rw [if_neg hk]
    exact .same

/-- A command that moves the merged tasks leaves the others alone. -/
theorem TaskStep.moveAll {ph : TaskPhase} (hin : c.MergedIn .merged)
    (h : ∀ m : Mark, m.phase = .merged →
      ∀ id ∈ c.merged, TaskStep c cmd id (some m) (some { m with phase := ph }))
    (id : String) : TaskStep c cmd id (c.task id) ((c.moveAll c.merged ph).task id) := by
  simp only [Course.moveAll]
  by_cases hid : id ∈ c.merged
  · rw [if_pos hid]
    obtain ⟨m, hm, hph⟩ := Option.map_eq_some_iff.1 (hin id hid)
    rw [hm]
    exact h m hph id hid
  · rw [if_neg hid]
    exact .same

theorem Shift.taskStep (h : Shift config c cmd d) (id : String) :
    TaskStep c cmd id (c.task id) (d.task id) := by
  cases h with
  | resumeJoin _ _ hn | recoverNext _ _ _ _ _ hn | workspaceReady _ hn | closeWave _ _ _ hn
  | advance _ _ _ hn =>
    rw [hn.eq]
    exact .same
  | openCohort => exact .cleared rfl
  | @admitWave _ _ _ _ ids _ _ _ _ hfresh =>
    dsimp only
    by_cases hid : id ∈ ids
    · rw [if_pos hid, hfresh id hid]
      exact .admitted rfl
    · rw [if_neg hid]
      exact .same
  | halt _ _ hn =>
    rw [hn.eq]
    simp only [Course.escalateActive]
    cases hm : c.task id with
    | none => exact .same
    | some m =>
      rw [Option.map_some]
      split_ifs with hactive
      exacts [.escalated hactive, .same]
  | task harrow hm => exact TaskStep.setTask hm (.arrow harrow) id
  | @taskReady _ k tip hp hm hclean =>
    by_cases hk : k = id
    · subst hk
      exact TaskStep.setTask hm (.reviewed hp hclean) k
    · simp only [Course.setTask, if_neg hk]
      exact .same
  | taskCommitted harrow hm => exact TaskStep.setTask hm (.arrow harrow) id
  | merged _ hm hn =>
    rw [hn.eq]
    exact TaskStep.setTask hm (.merged (.inl ⟨rfl, rfl⟩)) id
  | quarantined _ hm hn =>
    rw [hn.eq]
    exact TaskStep.setTask hm (.quarantined (.inl rfl)) id
  | needsResolution _ hm => exact TaskStep.setTask hm (.conflicted rfl) id
  | resolved _ hm _ hn =>
    rw [hn.eq]
    exact TaskStep.setTask hm (.merged (.inr ⟨rfl, rfl⟩)) id
  | unresolved _ hm _ _ hn =>
    rw [hn.eq]
    exact TaskStep.setTask hm (.quarantined (.inr rfl)) id
  | published _ _ hhead hver hin =>
    exact TaskStep.moveAll hin (fun m hm k hk => .published hm hk rfl hhead hver) id
  | rejected _ _ hin => exact TaskStep.moveAll hin (fun m hm _ _ => .rejected hm) id
  | reanchored _ _ _ hin => exact TaskStep.moveAll hin (fun m hm _ _ => .reanchored hm rfl) id
  | ciOpen hobs | ciFailed hobs | ciGivenUp hobs => cases hobs <;> exact .same
  | finished _ _ hgate =>
    dsimp only
    cases hm : c.task id with
    | none => exact .same
    | some m =>
      rw [Option.map_some]
      split_ifs with hpub
      exacts [.done hpub rfl hgate, .same]
  | _ => exact .same

/-! ## The graph -/

/-- The phases a task may enter next. -/
inductive TaskPhase.Leads : TaskPhase → TaskPhase → Prop
  | start : Leads .capturing .implementing
  | implemented : Leads .implementing .committing
  | fixed : Leads .fixing .committing
  | committed : Leads .committing .reviewing
  | findings : Leads .reviewing .fixing
  | clean : Leads .reviewing .ready
  | merge : Leads .ready .merged
  | conflict : Leads .ready .conflict
  | resolve : Leads .ready .resolvingMerge
  | resolved : Leads .resolvingMerge .merged
  | unresolved : Leads .resolvingMerge .conflict
  | publish : Leads .merged .published
  | reject : Leads .merged .escalated
  | reanchor : Leads .merged .ready
  | archive : Leads .published .done
  | escalate {ph} : ph.isActive = true → Leads ph .escalated

theorem Arrow.leads {phase : Phase} {from_ to_ : TaskPhase} (h : Arrow phase from_ to_) :
    from_.Leads to_ := by
  cases h with
  | start => exact .start
  | finish h =>
    rcases h with rfl | rfl
    exacts [.implemented, .fixed]
  | commit => exact .committed
  | fix => exact .findings
  | fail _ _ hactive => exact .escalate hactive
  | failEarly h =>
    rcases h with rfl | rfl
    exacts [.escalate rfl, .escalate rfl]

/-- A terminal phase is never left. -/
theorem TaskPhase.Leads.alive {ph to_ : TaskPhase} (h : ph.Leads to_) :
    ph ≠ .done ∧ ph ≠ .conflict ∧ ph ≠ .escalated := by
  cases h with
  | escalate hactive => cases ph <;> simp_all [TaskPhase.isActive]
  | _ => simp

/-- A task that stays in the cohort stays where it is or follows an edge. -/
theorem TaskStep.leads {id : String} {m n : Mark} (h : TaskStep c cmd id (some m) (some n)) :
    n.phase = m.phase ∨ m.phase.Leads n.phase := by
  cases h with
  | same => exact .inl rfl
  | arrow harrow => exact .inr harrow.leads
  | escalated hactive => exact .inr (.escalate hactive)
  | reviewed => exact .inr .clean
  | merged hph => exact .inr (hph.elim (fun h => h.1 ▸ .merge) fun h => h.1 ▸ .resolved)
  | quarantined hph => exact .inr (hph.elim (fun h => h ▸ .conflict) fun h => h ▸ .unresolved)
  | conflicted hph => exact .inr (hph ▸ .resolve)
  | published hph => exact .inr (hph ▸ .publish)
  | rejected hph => exact .inr (hph ▸ .reject)
  | reanchored hph => exact .inr (hph ▸ .reanchor)
  | done hph => exact .inr (hph ▸ .archive)

/-- How a task becomes ready. -/
theorem TaskStep.ready {id : String} {o : Option Mark} {tip : Option String}
    (h : TaskStep c cmd id o (some ⟨.ready, tip⟩)) (hne : o ≠ some ⟨.ready, tip⟩) :
    (∃ sha, tip = some sha ∧ cleanReview id cmd = some sha ∧ c.phase = .rolling ∧
        o = some ⟨.reviewing, some sha⟩) ∨
      cmd = .publicationReanchored ∧ o = some ⟨.merged, tip⟩ := by
  generalize hn : (some (⟨.ready, tip⟩ : Mark)) = n at h hne
  cases h with
  | same => exact absurd rfl hne
  | cleared => cases hn
  | admitted => simp at hn
  | arrow harrow =>
    simp only [Option.some.injEq, Mark.mk.injEq] at hn
    exact absurd hn.1.symm harrow.lands.2.2.2.2
  | reviewed hp hclean =>
    simp only [Option.some.injEq, Mark.mk.injEq, true_and] at hn
    exact .inl ⟨_, hn, hclean, hp, rfl⟩
  | reanchored hph hcmd =>
    rename_i m
    simp only [Option.some.injEq, Mark.mk.injEq, true_and] at hn
    exact .inr ⟨hcmd, by rw [hn, ← hph]⟩
  | escalated | merged | quarantined | conflicted | published | rejected | done => simp at hn

/-- How a task becomes published. -/
theorem TaskStep.publishes {id : String} {o : Option Mark} {tip : Option String}
    (h : TaskStep c cmd id o (some ⟨.published, tip⟩)) (hne : o ≠ some ⟨.published, tip⟩) :
    ∃ head pushed, cmd = .published head pushed ∧ id ∈ c.merged ∧ o = some ⟨.merged, tip⟩ ∧
      c.head = some head ∧ c.verified = some head := by
  generalize hn : (some (⟨.published, tip⟩ : Mark)) = n at h hne
  cases h with
  | same => exact absurd rfl hne
  | cleared => cases hn
  | arrow harrow =>
    simp only [Option.some.injEq, Mark.mk.injEq] at hn
    exact absurd hn.1.symm harrow.lands.2.2.1
  | published hph hid hcmd hhead hver =>
    simp only [Option.some.injEq, Mark.mk.injEq, true_and] at hn
    exact ⟨_, _, hcmd, hid, by rw [hn, ← hph], hhead, hver⟩
  | admitted | escalated | reviewed | merged | quarantined | conflicted | rejected | reanchored
  | done => simp at hn

end Course

end Orchestrail
