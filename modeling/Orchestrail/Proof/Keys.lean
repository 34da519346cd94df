import Orchestrail.Proof.Lift
import Orchestrail.Proof.ReportIntegration

/-!
# The entries of the ledger

A ledger key names its effect by the part before the first colon (`headOf_key`). What a step of the
runtime leaves in the ledger was there before and is not what it acknowledged, or is an effect of the
command it accepted (`next_pending`).
-/

namespace Orchestrail

open Std Table Steps

/-- The part of a key before its first colon. -/
def headOf (key : String) : List Char := key.toList.takeWhile (· ≠ ':')

theorem headOf_append {front : String} (hf : ':' ∈ front.toList) (rest : String) :
    headOf (front ++ rest) = headOf front := by
  unfold headOf
  rw [String.toList_append]
  generalize front.toList = cs at hf
  induction cs with
  | nil => cases hf
  | cons c cs ih =>
    by_cases hc : c = ':'
    · simp [hc]
    · have : ':' ∈ cs := (List.mem_cons.1 hf).resolve_left fun h => hc h.symm
      rw [List.cons_append, List.takeWhile_cons, List.takeWhile_cons, ih this]

/-- The head of the key of an effect. -/
def Effect.tag : Effect → String
  | .persistCheckpoint | .waitForOperator _ => ""
  | .reconcileInbox _ => "reconcile-inbox"
  | .reconcileInboxFinalization => "reconcile-inbox-finalization"
  | .dispatchDependencyCurator _ => "dispatch-dependency-curator"
  | .dispatchInboxCurator .. => "dispatch-inbox-curator"
  | .drainQueueInbox _ => "drain-queue-inbox"
  | .planNextWave _ => "plan-next-wave"
  | .checkTokenBudget _ => "check-token-budget"
  | .checkCohortBudget _ => "check-cohort-budget"
  | .reconcile _ => "reconcile"
  | .ensureTaskWorkspace .. => "ensure-workspace"
  | .prepareTaskReview _ => "prepare-task-review"
  | .prepareTaskLeaf .. => "prepare-task-leaf"
  | .dispatchTask .. => "dispatch-task"
  | .commitTask _ => "commit-task"
  | .prepareIntegrationWorkspace _ => "prepare-integration"
  | .mergeTask _ => "merge-task"
  | .finalizeMergeResolution _ => "finalize-merge-resolution"
  | .abortMergeResolution .. => "abort-merge-resolution"
  | .verifyIntegration _ => "verify-integration"
  | .dispatchIntegration _ => "dispatch-integration"
  | .commitIntegrationFix => "commit-integration-fix"
  | .publish _ => "publish"
  | .reanchorPublication _ => "reanchor-publication"
  | .verifyCi _ => "verify-ci"
  | .notify .. => "notify"
  | .prepareCiFix => "prepare-ci-fix"
  | .commitCiFix => "commit-ci-fix"
  | .prepareKnowledgeCuration => "prepare-knowledge-curation"
  | .prepareArchival => "prepare-archival"
  | .reconfirmCiBeforeArchive .. => "reconfirm-ci-before-archive"
  | .returnTask .. => "return-task"
  | .escalateTask .. => "escalate-task"
  | .archiveTask _ => "archive-task"
  | .cleanupTaskWorkspace _ => "cleanup-workspace"
  | .cleanupIntegrationWorkspace => "cleanup-integration-workspace"
  | .cleanupCohortControlPlane => "cleanup-cohort-control-plane"
  | .writeJournalAndStatus => "write-journal-and-status"
  | .releaseLease => "release-lease"

/-- The one key that is made in upper case first. -/
theorem effectKey_curator {n : Nat} {mode : InboxCurationMode} :
    effectKey (.dispatchInboxCurator n mode) =
      some ("dispatch-inbox-curator:" ++ inboxCurationKey mode) := by
  cases mode <;> simp [effectKey, Text.asciiLowercase, InboxCurationMode.debug, inboxCurationKey]

/-- **The head of a key tells the kind of its effect.** -/
theorem headOf_key {e : Effect} {key : String} (h : effectKey e = some key) :
    headOf key = e.tag.toList := by
  cases e with
  | persistCheckpoint | waitForOperator reason => cases h
  | dispatchDependencyCurator boundary | dispatchIntegration boundary =>
    obtain rfl := Option.some.inj h
    cases boundary <;> decide
  | dispatchInboxCurator n mode =>
    rw [effectKey_curator] at h
    obtain rfl := Option.some.inj h
    dsimp only [Effect.tag]
    exact (headOf_append (by decide) _).trans (by decide)
  | prepareTaskLeaf id kind | dispatchTask id kind | notify event subject =>
    obtain rfl := Option.some.inj h
    dsimp only [Effect.tag]
    rw [String.append_assoc, String.append_assoc]
    exact (headOf_append (by decide) _).trans (by decide)
  | checkTokenBudget next | checkCohortBudget next =>
    obtain rfl := Option.some.inj h
    dsimp only [Effect.tag]
    exact (headOf_append (by decide) next.ledgerSubject).trans (by decide)
  | reconcile id | ensureTaskWorkspace id branch | prepareTaskReview id | commitTask id | mergeTask id
  | finalizeMergeResolution id | abortMergeResolution id reason | returnTask id reason
  | escalateTask id reason | archiveTask id | cleanupTaskWorkspace id =>
    obtain rfl := Option.some.inj h
    dsimp only [Effect.tag]
    exact (headOf_append (by decide) _).trans (by decide)
  | _ =>
    obtain rfl := Option.some.inj h
    dsimp only [Effect.tag]
    decide

theorem tag_of_key {e : Effect} {key : String} {tag : String} (h : effectKey e = some key)
    (htag : headOf key = tag.toList) : e.tag = tag :=
  String.toList_inj.1 ((headOf_key h).symm.trans htag)

theorem mergeTask_of_key {e : Effect} {id : String} (h : effectKey e = some ("merge-task:" ++ id)) :
    e = .mergeTask id := by
  have htag : e.tag = "merge-task" :=
    tag_of_key h ((headOf_append (by decide) id).trans (by decide))
  cases e <;> first | (simp [Effect.tag] at htag; done) | skip
  have := Option.some.inj h
  rw [String.append_right_inj] at this
  rw [this]

/-- The key of a leaf result is the one of the leaf its task runs. -/
theorem taskLeafKey_ok {p : Processor} {tag taskId key : String} (h : taskLeafKey p tag taskId = .ok (some key)) :
    ∃ t kind, p.state.tasks[taskId]? = some t ∧ leafKindOf t.phase = some kind ∧
      key = tag ++ taskId ++ ":" ++ kind.asStr := by
  simp only [taskLeafKey, bind_eq_ok, ofProcessor_eq_ok, Except.ok.injEq, Option.map_eq_some_iff] at h
  obtain ⟨t, ht, kind, hkind, rfl⟩ := h
  exact ⟨t, kind, orError_eq_ok.1 ht, hkind, rfl⟩

/-- The entry of a key was there, or is one of the effects. -/
theorem enterEffects_entry {effects : List Effect} {pending pending' : StringMap Effect}
    {key : String} {e : Effect} (h : enterEffects effects pending = .ok pending')
    (he : pending'[key]? = some e) :
    pending[key]? = some e ∨ e ∈ effects ∧ effectKey e = some key := by
  induction effects generalizing pending with
  | nil =>
    obtain rfl := Except.ok.inj h
    exact .inl he
  | cons a effects ih =>
    have hinsert : ∀ k, effectKey a = some k → enterEffects effects (pending.insert k a) = .ok pending' →
        pending[key]? = some e ∨ e ∈ a :: effects ∧ effectKey e = some key := by
      intro k hk hrest
      rcases ih hrest with hold | ⟨hmem, hkey⟩
      · rw [ExtTreeMap.getElem?_insert] at hold
        by_cases hkk : k = key
        · subst hkk
          obtain rfl : a = e := by simpa using hold
          exact .inr ⟨List.mem_cons_self, hk⟩
        · exact .inl (by simpa [hkk] using hold)
      · exact .inr ⟨List.mem_cons_of_mem _ hmem, hkey⟩
    simp only [enterEffects] at h
    split at h
    · rcases ih h with hold | ⟨hmem, hkey⟩
      · exact .inl hold
      · exact .inr ⟨List.mem_cons_of_mem _ hmem, hkey⟩
    · rename_i k hk
      split at h
      · split at h
        · exact hinsert k hk h
        · cases h
      · exact hinsert k hk h

/-- The effects of a turn keep the keys that are already outstanding. -/
theorem enterEffects_keeps {effects : List Effect} {pending pending' : StringMap Effect}
    {key : String} (h : enterEffects effects pending = .ok pending') (hkey : key ∈ pending) :
    key ∈ pending' := by
  induction effects generalizing pending with
  | nil =>
    obtain rfl := Except.ok.inj h
    exact hkey
  | cons effect effects ih =>
    simp only [enterEffects] at h
    split at h
    · exact ih h hkey
    · split at h
      · split at h
        · exact ih h (by simp [ExtTreeMap.mem_insert, hkey])
        · cases h
      · exact ih h (by simp [ExtTreeMap.mem_insert, hkey])

namespace ProcessorRuntime

theorem dropReconstructed_entry {authority : String} {effects : List Effect}
    {pending pending' : StringMap Effect} {key : String} {e : Effect}
    (h : dropReconstructed authority effects pending = .ok pending') (he : pending'[key]? = some e) :
    pending[key]? = some e := by
  induction effects generalizing pending with
  | nil =>
    obtain rfl := Except.ok.inj h
    exact he
  | cons a effects ih =>
    simp only [dropReconstructed] at h
    split at h
    · cases h
    · split at h
      · cases h
      · have hrest := ih h
        rw [ExtTreeMap.getElem?_erase] at hrest
        split at hrest
        · cases hrest
        · exact hrest

variable {eventId : String → String} {r s : ProcessorRuntime}

/-- **What a step leaves in the ledger** was there, not acknowledged by it, or is an effect of the
command it accepted. -/
theorem next_pending {step : RuntimeStep} {key : String} {e : Effect}
    (h : r.next eventId step = some s) (he : s.pending[key]? = some e) :
    r.pending[key]? = some e ∧
        (∀ cmd now, step = .apply cmd now → acknowledgementKey r.processor cmd ≠ .ok (some key)) ∨
      ∃ cmd now effects, step = .apply cmd now ∧
        r.processor.apply cmd = .ok (s.processor, effects) ∧ e ∈ effects ∧ effectKey e = some key := by
  cases step with
  | apply cmd now =>
    obtain ⟨t, ht, -, hp, hpend⟩ := next_apply h
    obtain ⟨ack, hack, -, happly, henter, -⟩ := transition_spec ht
    rw [← hpend] at henter
    rcases enterEffects_entry henter he with hold | ⟨hmem, hkey⟩
    · left
      cases ack with
      | none =>
        refine ⟨hold, fun cmd' now' heq hack' => ?_⟩
        obtain ⟨rfl, rfl⟩ := RuntimeStep.apply.inj heq
        rw [hack] at hack'
        cases hack'
      | some key' =>
        simp only [answered, ExtTreeMap.getElem?_erase] at hold
        split at hold
        · cases hold
        · rename_i hne
          refine ⟨hold, fun cmd' now' heq hack' => hne ?_⟩
          obtain ⟨rfl, rfl⟩ := RuntimeStep.apply.inj heq
          rw [hack] at hack'
          obtain rfl := Option.some.inj (Except.ok.inj hack')
          simp
    · exact .inr ⟨cmd, now, t.effects, rfl, hp ▸ happly, hmem, hkey⟩
  | appendOnly cmd now count =>
    obtain ⟨-, hpend, -⟩ := next_appendOnly h
    exact .inl ⟨hpend ▸ he, fun _ _ heq => by cases heq⟩
  | complete k =>
    obtain ⟨effect, -, -, hpend, -⟩ := next_complete h
    rw [hpend, ExtTreeMap.getElem?_erase] at he
    split at he
    · cases he
    · exact .inl ⟨he, fun _ _ heq => by cases heq⟩
  | supersede authority reconstructed =>
    obtain ⟨-, -, k, -, -, hdrop⟩ := next_supersede h
    exact .inl ⟨dropReconstructed_entry hdrop he, fun _ _ heq => by cases heq⟩
  | resume =>
    obtain ⟨-, hpend, -⟩ := next_resume h
    exact .inl ⟨hpend ▸ he, fun _ _ heq => by cases heq⟩

/-- Every entry stands under the key of its effect. -/
def Filed (r : ProcessorRuntime) : Prop :=
  ∀ (key : String) (e : Effect), r.pending[key]? = some e → effectKey e = some key

theorem filed_of_reach {config : ProcessorConfig} {r0 : ProcessorRuntime}
    {ok : ProcessorRuntime → RuntimeStep → Prop} (hnew : new config = .ok r0)
    (h : Reach (next eventId) ok r0 r) : r.Filed := by
  refine h.invariant (I := Filed) ?_ fun t step u ht _ hn key e he => ?_
  · intro key e he
    rw [(new_reducer hnew).2.1] at he
    simp at he
  · rcases next_pending hn he with ⟨hold, -⟩ | ⟨_, _, _, -, -, -, hkey⟩
    · exact ht key e hold
    · exact hkey

end ProcessorRuntime

end Orchestrail
