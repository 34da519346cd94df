import Orchestrail.Proof.RefineIntegration

/-!
# Cleaning turns refine the course

Knowledge curation, the archive preflight with its CI reconfirmation, the end of the cohort, and the
acknowledgement of the journal.
-/

namespace Orchestrail

open Std Table

namespace Processor

variable {p q : Processor} {effects : List Effect}

section Curation

theorem idsInPhase_valid (hs : Sound p) {ph : TaskPhase} {id : String} (h : id ∈ p.state.idsInPhase ph) :
    isTaskId id = true := by
  rcases mem_foldl_insert.1 h with h | h
  · exact absurd h (by simp)
  · obtain ⟨t, ht, rfl⟩ := List.mem_map.1 h
    obtain ⟨k, hk⟩ := mem_vals.1 (List.mem_filter.1 ht).1
    have hok := hs.tasks k t hk
    exact hok.key ▸ hok.valid

/-- The findings are counted over published tasks only. -/
theorem countFixedFindings_published :
    ∀ {ids : List String} {total n : Nat}, p.countFixedFindings ids total = .ok n →
      ∀ id ∈ ids, p.course.In id .published
  | [], _, _, _ => by simp
  | id :: ids, total, n, h => by
    simp only [countFixedFindings, bind_eq_ok, exists_const, taskMut_eq_ok,
      expectTaskPhase_eq_ok] at h
    obtain ⟨t, ht, hph, h⟩ := h
    intro k hk
    rcases List.mem_cons.1 hk with rfl | hk
    · exact in_iff.2 ⟨t, ht, hph⟩
    · exact countFixedFindings_published h k hk

theorem curationRetry_ok (hs : Sound p) {id : String} {k : PendingKnowledgeCuration}
    (h : p.currentKnowledgeCurationRetry = .ok (id, k)) : CurationOk id k := by
  simp only [currentKnowledgeCurationRetry, bind_eq_ok, exists_const, orError_eq_ok, validateBatchId,
    validateRef, require_eq_ok, Except.ok.injEq, Prod.mk.injEq] at h
  obtain ⟨b, hb, hid, hbase, head, hhead, href, n, hn, rfl, rfl⟩ := h
  refine ⟨hid, hbase, href, fun t ht => ?_, fun t => idsInPhase_valid hs, fun t => idsInPhase_valid hs⟩
  obtain ⟨u, hu, -⟩ := in_iff.1 (countFixedFindings_published hn t (mem_elems.2 ht))
  exact (hs.tasks t u hu).valid

/-- Replacing the deferred curations by valid ones. -/
theorem refines_curations {cmd : ProcessorCommand} {i : IntegrationRuntime}
    {curations : StringMap PendingKnowledgeCuration} (hs : Sound p)
    (hi : ∃ notes, i = { p.state.integration with degradations := notes })
    (hok : ∀ (id : String) (k : PendingKnowledgeCuration), curations[id]? = some k → CurationOk id k)
    (hcmd : silent cmd = true) : p.Refines cmd ((p.withIntegration i).withCurations curations) := by
  obtain ⟨notes, rfl⟩ := hi
  exact ⟨⟨⟨hs.version, hs.tasks, hs.batch,
    ⟨hs.integration.restore, hs.integration.heads, hs.integration.pre, hok⟩⟩, rfl⟩, .stay hcmd⟩

theorem knowledgeCurated_refines {outcome : LeafOutcome} (hs : Sound p)
    (h : p.knowledgeCurated outcome = .ok (q, effects)) : p.Refines (.knowledgeCurated outcome) q := by
  simp only [knowledgeCurated, bind_eq_ok, Prod.exists] at h
  obtain ⟨_, -, id, k, hk, h⟩ := h
  split at h <;> obtain ⟨rfl, -⟩ := Prod.mk.inj (Except.ok.inj h)
  · exact refines_curations (i := p.state.integration) hs ⟨_, rfl⟩ (by simp) rfl
  · have hnew := curationRetry_ok hs hk
    refine refines_curations hs ⟨_, rfl⟩ (fun j l hl => ?_) rfl
    rw [ExtTreeMap.getElem?_insert] at hl
    by_cases hj : id = j
    · subst hj
      simp only [Std.ReflCmp.compare_self, if_true, Option.some.injEq] at hl
      subst hl
      exact ⟨hnew.id, hnew.base, hnew.head, hnew.merged, hnew.quarantined, hnew.escalated⟩
    · refine hs.integration.curations j l ?_
      simpa [hj, withIntegration, IntegrationRuntime.parts] using hl

theorem knowledgeCurationPrepared_refines {outcome : KnowledgeCurationPreparationOutcome}
    (hs : Sound p) (h : p.knowledgeCurationPrepared outcome = .ok (q, effects)) :
    p.Refines (.knowledgeCurationPrepared outcome) q := by
  simp only [knowledgeCurationPrepared, bind_eq_ok] at h
  obtain ⟨_, -, _, -, h⟩ := h
  cases outcome <;> obtain ⟨rfl, -⟩ := Prod.mk.inj (Except.ok.inj h)
  · exact ⟨⟨hs, rfl⟩, .stay rfl⟩
  · exact refines_curations (i := p.state.integration) hs ⟨_, rfl⟩ (by simp) rfl
  · exact refines_stay hs rfl

end Curation

section Archive

theorem archivalPrepared_refines {outcome : ArchivalPreparationOutcome} (hs : Sound p)
    (h : p.archivalPrepared outcome = .ok (q, effects)) : p.Refines (.archivalPrepared outcome) q := by
  simp only [archivalPrepared, bind_eq_ok, exists_const, requirePhase_eq_ok, require_eq_ok,
    orError_eq_ok, requireNone_eq_ok, requireArchivable, checkAll_eq_ok, taskMut_eq_ok,
    validateBatchId, validateRef] at h
  obtain ⟨hp, hj, b, hb, -, -, hmerged, harch, hpub, _, hcontext, hgate, h⟩ := h
  cases outcome with
  | skipped =>
    obtain ⟨rfl, -⟩ := Prod.mk.inj (Except.ok.inj h)
    refine ⟨⟨sound_withIntegration hs hs.integration, rfl⟩,
      .skipped hp hj hgate (by simp [course, hb]) ?_ ?_ ?_ ?_⟩
    · rw [no_iff]
      exact fun id t ht => hmerged t (mem_vals.2 ⟨id, ht⟩)
    · intro id hid
      obtain ⟨t, ht, hph⟩ := harch id (mem_elems.2 hid)
      exact hph.imp (fun hph => in_iff.2 ⟨t, ht, hph⟩) (fun hph => in_iff.2 ⟨t, ht, hph⟩)
    · intro id hid
      obtain ⟨t, ht, hph⟩ := in_iff.1 hid
      have hin : id ∈ p.state.integration.mergedTasks := by
        have := hpub t (mem_vals.2 ⟨id, ht⟩)
        rw [(hs.tasks id t ht).key] at this
        simpa [hph] using this
      exact hin
    · intro hne
      simp only [requirePublicationContext] at hcontext
      rw [if_neg (by rw [show p.state.integration.mergedTasks.isEmpty = false from hne]; simp)] at hcontext
      simp only [bind_eq_ok, exists_const, orError_eq_ok, require_eq_ok, validateRef] at hcontext
      obtain ⟨head, hhead, -, hpushed, hci⟩ := hcontext
      simp [course, hhead, Option.isSome_iff_ne_none, hpushed, hci]
  | reconfirmRequired checks =>
    simp only [bind_eq_ok] at h
    obtain ⟨_, -, _, -, _, -, _, -, h⟩ := h
    obtain ⟨rfl, -⟩ := Prod.mk.inj (Except.ok.inj h)
    exact refines_stay hs rfl

theorem archiveCiReconfirmed_refines {head : String} {outcome : CiOutcome} (hs : Sound p)
    (h : p.archiveCiReconfirmed head outcome = .ok (q, effects)) :
    p.Refines (.archiveCiReconfirmed head outcome) q := by
  simp only [archiveCiReconfirmed, bind_eq_ok, requirePhase_eq_ok, require_eq_ok,
    orError_eq_ok, validateRef] at h
  obtain ⟨_, hp, published, hhead, _, -, _, heq, _, hgate, _, ⟨hj, hpushed, hci⟩, _, -, h⟩ := h
  subst heq
  have hs' : Sound ((p.withIntegration { p.state.integration with
      archiveCiWaitAttempts := satAdd p.state.integration.archiveCiWaitAttempts 1
      cleanupJournaled := false }).withPhase .publishing) :=
    sound_withPhase (sound_withIntegration hs hs.integration) _
  have hobs : ∀ o, Observed p.course (.archiveCiReconfirmed head o) o _ := fun _ =>
    .archive hp hhead hgate hj hpushed hci
  cases outcome with
  | passed =>
    obtain ⟨rfl, -⟩ := Prod.mk.inj (Except.ok.inj h)
    exact ⟨⟨sound_withIntegration hs hs.integration, rfl⟩,
      .reconfirmed hp hj hgate hhead hpushed hci⟩
  | requiredUnconfirmed reason =>
    obtain ⟨hk, hshift⟩ := ciVerified_observed hs' (hobs _) (.inl ⟨reason, rfl⟩) h
    exact ⟨⟨hk.sound, hk.config⟩, hshift⟩
  | failed signature reason =>
    obtain ⟨hk, hshift⟩ := ciVerified_observed hs' (hobs _) (.inr ⟨signature, reason, rfl⟩) h
    exact ⟨⟨hk.sound, hk.config⟩, hshift⟩
  | localOnly | disabled | bestEffortDegraded reason => exact absurd h (by simp)

theorem cleanupComplete_refines (hs : Sound p) (h : p.cleanupComplete = .ok (q, effects)) :
    p.Refines .cleanupComplete q := by
  simp only [cleanupComplete, bind_eq_ok, exists_const, requirePhase_eq_ok, requireNone_eq_ok,
    require_eq_ok] at h
  obtain ⟨hp, hmerged, hgate, h⟩ := h
  split at h
  · obtain ⟨rfl, -⟩ := Prod.mk.inj (Except.ok.inj h)
    exact refines_stay hs rfl
  rename_i hpost
  obtain ⟨rfl, -⟩ := Prod.mk.inj (Except.ok.inj h)
  refine ⟨⟨⟨hs.version, ?_, by simp [withIntegration, withBatch], ⟨rfl, ?_, ?_, hs.integration.curations⟩⟩,
    rfl⟩, ?_⟩
  · intro id t ht
    simp only [withTasks, withPhase, withBatch, withIntegration, ExtTreeMap.getElem?_map,
      Option.map_eq_some_iff] at ht
    obtain ⟨u, hu, rfl⟩ := ht
    have hok := hs.tasks id u hu
    split
    · exact ⟨hok.key, hok.valid, hok.wave, hok.domain, hok.previous, hok.review, hok.native⟩
    · exact hok
  · simp [IntegrationRuntime.parts, withIntegration]
  · simp [IntegrationRuntime.parts, withIntegration]
  · have hshift : Shift p.config p.course .cleanupComplete _ :=
      .finished hp (no_iff.2 fun id t ht => hmerged t (mem_vals.2 ⟨id, ht⟩))
        (by simpa [course, Option.isSome_iff_ne_none] using hgate) (by simpa [course] using hpost)
    convert hshift using 1
    simp only [course, withTasks, withPhase, withBatch, withIntegration, ExtTreeMap.size_map,
      ExtTreeMap.getElem?_map, Option.map_map]
    congr 1
    funext k
    cases p.state.tasks[k]? with
    | none => rfl
    | some t =>
      simp only [Option.map_some, Function.comp_apply]
      by_cases hph : t.phase = .published <;> simp [TaskRuntime.mark, hph]

/-- **An acknowledged effect that answers with no command** changes nothing but the journal flag of
phase 6. -/
theorem acknowledge_spec {effect : Effect} (hs : Sound p)
    (h : p.acknowledgeNonCommandEffect effect = .ok q) :
    q = p ∨ effect = .writeJournalAndStatus ∧ p.state.phase = .cleaning ∧
      q = p.withIntegration { p.state.integration with cleanupJournaled := true } := by
  unfold acknowledgeNonCommandEffect at h
  split at h
  · split at h
    · rename_i hp
      obtain rfl := Except.ok.inj h
      exact .inr ⟨rfl, hp, rfl⟩
    · exact .inl (Except.ok.inj h).symm
  · simp only [bind_eq_ok, taskMut_eq_ok] at h
    obtain ⟨t, ht, h⟩ := h
    rw [if_neg (by rw [(hs.tasks _ t ht).native]; simp)] at h
    exact .inl (Except.ok.inj h).symm
  · exact .inl (Except.ok.inj h).symm

end Archive

end Processor

end Orchestrail
