import Orchestrail.Proof.Stops

/-!
# Acknowledgements of a stopped reducer

A blocked or paused reducer answers a command with a wait and accepts it, so the runtime takes the
acknowledged key out of the ledger although no transition ran. That cannot happen when nothing a
command must answer is outstanding where the processor stops.

* `settled_of_reach`: what a stopped processor still waits for is acknowledged without a command.
-/

namespace Orchestrail

open Std Table Steps

namespace Processor

/-- The command took the reducer to `q` by its own transition. -/
def Ran (p : Processor) (cmd : ProcessorCommand) (q : Processor) : Prop :=
  p.standingReply cmd = none ∧ ∃ effects, p.dispatch cmd = .ok (q, effects)

variable {p q : Processor} {cmd : ProcessorCommand} {effects : List Effect}

/-- What `apply` does when the reducer does not stand. -/
theorem ran_of_apply (h : p.apply cmd = .ok (q, effects)) (hstand : p.standingReply cmd = none) :
    p.Ran cmd q := by
  refine ⟨hstand, ?_⟩
  unfold apply at h
  rw [hstand] at h
  simp only [bind_eq_ok] at h
  obtain ⟨⟨next, more⟩, hd, h⟩ := h
  obtain ⟨rfl, -⟩ := Prod.mk.inj (Except.ok.inj h)
  exact ⟨more, hd⟩

end Processor

/-- The scheduler's commands, which acknowledge nothing, are the only ones that leave a stop. -/
theorem standingReply_of_key {p : Processor} {cmd : ProcessorCommand} {key : String}
    (h : acknowledgementKey p cmd = .ok (some key)) :
    p.standingReply cmd = none ↔ p.state.phase ≠ .blocked ∧ p.state.phase ≠ .paused := by
  cases cmd <;> first
    | (simp [acknowledgementKey] at h; done)
    | (unfold Processor.standingReply; cases p.state.phase <;> simp)

/-- What a command acknowledges is an effect that awaits a command. -/
theorem acknowledged_effect {p : Processor} {cmd : ProcessorCommand} {key : String}
    (h : acknowledgementKey p cmd = .ok (some key)) :
    ∃ e, effectKey e = some key ∧ awaitsCommand e = true := by
  cases cmd with
  | workspaceReady id | workspaceFailed id =>
    exact ⟨.ensureTaskWorkspace id "", Except.ok.inj h, rfl⟩
  | taskLeafPrepared id =>
    obtain ⟨t, kind, -, -, rfl⟩ := taskLeafKey_ok h
    exact ⟨.prepareTaskLeaf id kind, rfl, rfl⟩
  | taskLeaf id =>
    obtain ⟨t, kind, -, -, rfl⟩ := taskLeafKey_ok h
    exact ⟨.dispatchTask id kind, rfl, rfl⟩
  | taskCommitted id => exact ⟨.commitTask id, Except.ok.inj h, rfl⟩
  | taskReviewPrepared id => exact ⟨.prepareTaskReview id, Except.ok.inj h, rfl⟩
  | taskReview id =>
    refine ⟨.dispatchTask id .review, ?_, rfl⟩
    rw [← Except.ok.inj h]
    simp [effectKey, LeafKind.asStr, String.append_assoc]
  | integrationWorkspaceReady => exact ⟨.prepareIntegrationWorkspace "", Except.ok.inj h, rfl⟩
  | tokenBudgetChecked next => exact ⟨.checkTokenBudget next, Except.ok.inj h, rfl⟩
  | cohortBudgetChecked next => exact ⟨.checkCohortBudget next, Except.ok.inj h, rfl⟩
  | taskMerged id => exact ⟨.mergeTask id, Except.ok.inj h, rfl⟩
  | mergeResolution => exact ⟨.dispatchIntegration .merger, Except.ok.inj h, rfl⟩
  | mergeResolutionFinalized id => exact ⟨.finalizeMergeResolution id, Except.ok.inj h, rfl⟩
  | mergeResolutionAborted id => exact ⟨.abortMergeResolution id "", Except.ok.inj h, rfl⟩
  | integrationVerified => exact ⟨.verifyIntegration "", Except.ok.inj h, rfl⟩
  | integrationReview => exact ⟨.dispatchIntegration .integrationReview, Except.ok.inj h, rfl⟩
  | integrationFix => exact ⟨.dispatchIntegration .integrationFix, Except.ok.inj h, rfl⟩
  | integrationFixCommitted => exact ⟨.commitIntegrationFix, Except.ok.inj h, rfl⟩
  | published | publicationRejected | publicationAwaitingApproval | publicationReanchorRequired =>
    exact ⟨.publish "", Except.ok.inj h, rfl⟩
  | publicationReanchored => exact ⟨.reanchorPublication "", Except.ok.inj h, rfl⟩
  | ciVerified => exact ⟨.verifyCi "", Except.ok.inj h, rfl⟩
  | ciFixPrepared => exact ⟨.prepareCiFix, Except.ok.inj h, rfl⟩
  | ciFix => exact ⟨.dispatchIntegration .ciFix, Except.ok.inj h, rfl⟩
  | ciFixCommitted => exact ⟨.commitCiFix, Except.ok.inj h, rfl⟩
  | knowledgeCurationPrepared => exact ⟨.prepareKnowledgeCuration, Except.ok.inj h, rfl⟩
  | knowledgeCurated => exact ⟨.dispatchIntegration .knowledgeCurator, Except.ok.inj h, rfl⟩
  | archivalPrepared => exact ⟨.prepareArchival, Except.ok.inj h, rfl⟩
  | archiveCiReconfirmed => exact ⟨.reconfirmCiBeforeArchive "" [], Except.ok.inj h, rfl⟩
  | admitWave => exact ⟨.planNextWave 0, Except.ok.inj h, rfl⟩
  | inboxReconciled => exact ⟨.reconcileInbox 0, Except.ok.inj h, rfl⟩
  | inboxFinalizationReconciled => exact ⟨.reconcileInboxFinalization, Except.ok.inj h, rfl⟩
  | dependencyGraphRefreshed boundary =>
    exact ⟨.dispatchDependencyCurator boundary, Except.ok.inj h, rfl⟩
  | inboxCurated n mode => exact ⟨.dispatchInboxCurator n mode, Except.ok.inj h, rfl⟩
  | inboxDrained => exact ⟨.drainQueueInbox 0, Except.ok.inj h, rfl⟩
  | openCohort | recover | advance | cleanupComplete | pause | resume | block => cases h

/-- The tags of the effects that await no command. -/
def quietTags : List String :=
  ["", "reconcile", "notify", "return-task", "escalate-task", "archive-task", "cleanup-workspace",
    "cleanup-integration-workspace", "cleanup-cohort-control-plane", "write-journal-and-status",
    "release-lease"]

theorem awaitsCommand_iff {e : Effect} : awaitsCommand e = true ↔ e.tag ∉ quietTags := by
  cases e <;> simp [awaitsCommand, acknowledgementOnlyEffect, Effect.tag, quietTags]

/-- Effects under one key await a command together. -/
theorem awaitsCommand_of_key {e e' : Effect} {key : String} (h : effectKey e = some key)
    (h' : effectKey e' = some key) (hawait : awaitsCommand e = true) : awaitsCommand e' = true := by
  have htag : e'.tag = e.tag := tag_of_key h' (headOf_key h)
  rw [awaitsCommand_iff] at hawait ⊢
  rwa [htag]

namespace ProcessorRuntime

variable {eventId : String → String} {r s r0 : ProcessorRuntime} {config : ProcessorConfig}
  {cmd : ProcessorCommand} {now key : String} {effects : List Effect}

/-- Nothing that a command must answer is outstanding where a command may stop the processor, but
what it acknowledges itself. -/
def Clear (r : ProcessorRuntime) : RuntimeStep → Prop
  | .apply cmd _ => r.processor.mayStop cmd = true → ∀ x ∈ r.pending.toList,
      awaitsCommand x.2 = true → acknowledgementKey r.processor cmd = .ok (some x.1)
  | _ => True

instance (r : ProcessorRuntime) : (step : RuntimeStep) → Decidable (r.Clear step)
  | .apply cmd _ => inferInstanceAs (Decidable (r.processor.mayStop cmd = true →
      ∀ x ∈ r.pending.toList, awaitsCommand x.2 = true →
        acknowledgementKey r.processor cmd = .ok (some x.1)))
  | .appendOnly .. | .complete _ | .supersede .. | .resume => inferInstanceAs (Decidable True)

/-- A stopped processor waits for acknowledgements only. -/
def Settles (r : ProcessorRuntime) : Prop :=
  r.processor.Stopped → ∀ (key : String) (e : Effect), r.pending[key]? = some e →
    awaitsCommand e = false

/-- **A step keeps a stopped processor free of effects that a command must answer.** -/
theorem Settles.step {step : RuntimeStep} (hr : r.Settles) (hs : Sound r.processor)
    (hclear : r.Clear step) (h : r.next eventId step = some s) : s.Settles := by
  intro hstop key e he
  cases step with
  | apply cmd now =>
    obtain ⟨t, ht, -, hp, -⟩ := next_apply h
    obtain ⟨ack, hack, -, happly, -, -⟩ := transition_spec ht
    rw [hp] at hstop
    cases hstand : r.processor.standingReply cmd with
    | some reply =>
      -- the reply changes nothing and asks for a wait
      obtain ⟨hq, hwait⟩ := Processor.apply_standing happly (by rw [hstand]; rfl)
      rcases next_pending h he with ⟨hold, -⟩ | ⟨_, _, more, heq, happly', hmem, hkey⟩
      · exact hr (hq ▸ hstop) key e hold
      · obtain ⟨rfl, rfl⟩ := RuntimeStep.apply.inj heq
        rw [hp, happly] at happly'
        obtain ⟨-, rfl⟩ := Prod.mk.inj (Except.ok.inj happly')
        obtain ⟨reason, rfl⟩ := hwait e hmem
        rfl
    | none =>
      obtain ⟨hmay, hquiet⟩ := Processor.apply_halts hs happly hstand hstop
      rcases next_pending h he with ⟨hold, hnot⟩ | ⟨_, _, more, heq, happly', hmem, hkey⟩
      · by_contra hawait
        have hown := hclear hmay (key, e) (ExtTreeMap.mem_toList_iff_getElem?_eq_some.2 hold)
          (by simpa using hawait)
        exact hnot cmd now rfl hown
      · obtain ⟨rfl, rfl⟩ := RuntimeStep.apply.inj heq
        rw [hp, happly] at happly'
        obtain ⟨-, rfl⟩ := Prod.mk.inj (Except.ok.inj happly')
        exact hquiet e hmem
  | appendOnly cmd now count =>
    obtain ⟨hp, hpend, -⟩ := next_appendOnly h
    exact hr (hp ▸ hstop) key e (hpend ▸ he)
  | complete k =>
    obtain ⟨effect, -, hack, hpend, -⟩ := next_complete h
    have hphase : s.processor.state.phase = r.processor.state.phase := by
      rcases Processor.acknowledge_spec hs hack with hq | ⟨-, -, hq⟩
      · rw [hq]
      · rw [hq]
        rfl
    refine hr (by rwa [Processor.Stopped, hphase] at hstop) key e ?_
    rw [hpend, ExtTreeMap.getElem?_erase] at he
    split at he
    · cases he
    · exact he
  | supersede authority reconstructed =>
    obtain ⟨hp, -, k, -, -, hdrop⟩ := next_supersede h
    exact hr (hp ▸ hstop) key e (dropReconstructed_entry hdrop he)
  | resume =>
    obtain ⟨hp, -, -⟩ := next_resume h
    rw [Processor.fromCheckpoint_eq hp] at hstop
    rcases hstop with hphase | hphase <;> cases hphase

theorem settled_of_reach (hnew : new config = .ok r0) (h : Reach (next eventId) Clear r0 r) :
    r.Settles := by
  refine (h.invariant (I := fun r => r.Sailing ∧ r.Settles) ⟨new_sailing hnew, ?_⟩
    fun t step u ⟨hsail, hset⟩ hok hn => ⟨hsail.step hn, hset.step hsail.sound hok hn⟩).2
  intro _ key e he
  rw [(new_reducer hnew).2.1] at he
  simp at he

/-- **An acknowledgement is consumed by its own transition**, in every state of every run that stops
only where no other effect awaits a command. -/
theorem acknowledgement_ran (hnew : new config = .ok r0) (hrun : Reach (next eventId) Clear r0 r)
    (h : r.applyAt eventId cmd now = .ok (s, effects)) (hkey : key ∈ r.pending)
    (hgone : key ∉ s.pending) : r.processor.Ran cmd s.processor := by
  obtain ⟨t, ht, -, hp, hpend, -⟩ := applyAt_spec h
  obtain ⟨ack, hack, hcheck, happly, henter, -⟩ := transition_spec ht
  cases ack with
  | none =>
    -- without an acknowledged key nothing would have left the ledger
    rw [← hpend] at henter
    exact absurd (enterEffects_keeps henter hkey) hgone
  | some key' =>
    rw [hp]
    refine Processor.ran_of_apply happly ((standingReply_of_key hack).2 ?_)
    have hmem : key' ∈ r.pending := by
      by_contra hno
      simp [checkAcknowledgement, hno] at hcheck
    obtain ⟨e, he⟩ := Option.isSome_iff_exists.1 (ExtTreeMap.mem_iff_isSome_getElem?.1 hmem)
    obtain ⟨e', hkey', hawait⟩ := acknowledged_effect hack
    have hawaits := awaitsCommand_of_key hkey' (filed_of_reach hnew hrun key' e he) hawait
    -- a stopped processor would have nothing under that key
    constructor <;>
    · intro hphase
      have hquiet := settled_of_reach hnew hrun (by simp [Processor.Stopped, hphase]) key' e he
      rw [hawaits] at hquiet
      cases hquiet

section Sample

/-- A pause before the cohort is opened, and then the work up to its verification. -/
def pausedOnce : List RuntimeStep :=
  applied [.recover ∅] ++ [.complete "write-journal-and-status"] ++ applied [.pause] ++
    [.complete "write-journal-and-status"] ++ applied [.resume] ++ verified.tail.dropLast

end Sample

/-- A verification that stops the cohort is itself the last outstanding result: it leaves the ledger
by its own transition. -/
theorem acknowledgement_ran_blocked :
    ∃ (r s : ProcessorRuntime) (cmd : ProcessorCommand),
      "verify-integration" ∈ r.pending ∧ "verify-integration" ∉ s.pending ∧
        s.processor.Stopped ∧ r.processor.Ran cmd s.processor := by
  have hrun : (exec (guarded (fun r step => decide (r.Clear step)) (next id)) freshRuntime
      pausedOnce).any
      (fun r => decide ("verify-integration" ∈ r.pending) &&
        (r.applyAt id (.integrationVerified "m1" (.blocked "no profile"))
          "2026-07-24T12:00:00Z").toOption.any
          fun x => decide ("verify-integration" ∉ x.1.pending) &&
            decide (x.1.processor.state.phase = .blocked)) = true := by decide +kernel
  obtain ⟨r, hreach, hp⟩ := exec_any hrun
  simp only [Bool.and_eq_true, decide_eq_true_eq, Option.any_eq_true] at hp
  obtain ⟨hkey, ⟨s, effects⟩, happly, hgone, hphase⟩ := hp
  cases hx : r.applyAt id (.integrationVerified "m1" (.blocked "no profile"))
      "2026-07-24T12:00:00Z" with
  | error e => rw [hx] at happly; cases happly
  | ok x =>
    rw [hx] at happly
    obtain rfl : x = (s, effects) := Option.some.inj happly
    have hnew : new {} = .ok freshRuntime := rfl
    exact ⟨r, s, _, hkey, hgone, .inl hphase, acknowledgement_ran hnew
      (hreach.mono fun _ _ h => of_decide_eq_true h) hx hkey hgone⟩

/-- **A commit that arrives after a recovery has blocked the reducer is acknowledged and forgotten.** -/
theorem acknowledgement_ran_broken :
    ¬∀ (config : ProcessorConfig) (r0 r s : ProcessorRuntime) (cmd : ProcessorCommand)
        (now key : String) (effects : List Effect), new config = .ok r0 →
      Reach (next id) (fun _ _ => True) r0 r → r.applyAt id cmd now = .ok (s, effects) →
      key ∈ r.pending → key ∉ s.pending → r.processor.Ran cmd s.processor := by
  intro hall
  have hrun : (exec (guarded (fun _ _ => true) (next id)) freshRuntime
      (admitted [Processor.proposal "T-1" "a/**"] ++
        applied [.workspaceReady "T-1", .taskLeafPrepared "T-1" .completed] ++
        [.resume] ++ applied [.recover ∅])).any
      (fun r => decide ("commit-task:T-1" ∈ r.pending) && decide (r.processor.state.phase = .blocked) &&
        (r.applyAt id (.taskCommitted "T-1" "c1") "2026-07-24T12:00:00Z").toOption.any
          fun x => decide ("commit-task:T-1" ∉ x.1.pending)) = true := by decide +kernel
  obtain ⟨r, hreach, hp⟩ := exec_any hrun
  simp only [Bool.and_eq_true, decide_eq_true_eq, Option.any_eq_true] at hp
  obtain ⟨⟨hkey, hphase⟩, ⟨s, effects⟩, happly, hgone⟩ := hp
  cases hx : r.applyAt id (.taskCommitted "T-1" "c1") "2026-07-24T12:00:00Z" with
  | error e => rw [hx] at happly; cases happly
  | ok x =>
    rw [hx] at happly
    obtain rfl : x = (s, effects) := Option.some.inj happly
    have hran := hall {} _ r s _ _ _ _ rfl (hreach.mono fun _ _ _ => trivial) hx hkey hgone
    unfold Processor.Ran Processor.standingReply at hran
    rw [hphase] at hran
    simp at hran

end ProcessorRuntime

end Orchestrail
