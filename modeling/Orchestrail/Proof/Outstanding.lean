import Orchestrail.Proof.History

/-!
# The ledger of a run

The runtime keeps in its ledger the effects that the reducer asked for. Along every run the ledger
is exactly what was asked for and not answered since, and each of its effects was due when it was
asked for. The reducer behind the run follows the abstract course.
-/

namespace Orchestrail

open Std Table Steps Course

/-- **A key's entry is an effect of the turn, or was there before it.** -/
theorem enterEffects_iff {effects : List Effect} {pending pending' : StringMap Effect}
    {key : String} {e : Effect} (h : enterEffects effects pending = .ok pending') :
    pending'[key]? = some e ↔
      (e ∈ effects ∧ effectKey e = some key) ∨ pending[key]? = some e := by
  refine ⟨fun he => (enterEffects_entry h he).symm, fun he => ?_⟩
  induction effects generalizing pending with
  | nil =>
    obtain rfl := Except.ok.inj h
    rcases he with ⟨hmem, -⟩ | hold
    · cases hmem
    · exact hold
  | cons a effects ih =>
    simp only [enterEffects] at h
    split at h
    case h_1 hunkeyed =>
      rcases he with ⟨hmem, hkey⟩ | hold
      · rcases List.mem_cons.1 hmem with rfl | hmem
        · rw [hunkeyed] at hkey
          cases hkey
        · exact ih h (.inl ⟨hmem, hkey⟩)
      · exact ih h (.inr hold)
    case h_2 k hk =>
      -- an entry under the key of `a` is `a`
      have hsame : pending[k]? = none ∨ pending[k]? = some a := by
        split at h
        case h_1 existing hexisting =>
          split at h
          case isTrue heq => exact .inr (heq ▸ hexisting)
          case isFalse => cases h
        case h_2 hnone => exact .inl hnone
      have hrest : enterEffects effects (pending.insert k a) = .ok pending' := by
        split at h
        · split at h
          · exact h
          · cases h
        · exact h
      refine ih hrest ?_
      rcases he with ⟨hmem, hkey⟩ | hold
      · rcases List.mem_cons.1 hmem with rfl | hmem
        · obtain rfl := Option.some.inj (hk.symm.trans hkey)
          exact .inr (by simp)
        · exact .inl ⟨hmem, hkey⟩
      · right
        rw [ExtTreeMap.getElem?_insert]
        by_cases hkk : k = key
        · subst hkk
          rcases hsame with hnone | hsome
          · rw [hnone] at hold
            cases hold
          · simpa [hsome] using hold
        · simpa [hkk] using hold

namespace ProcessorRuntime

variable {eventId : String → String} {r s r0 : ProcessorRuntime} {config : ProcessorConfig}
  {tr : List (ProcessorRuntime × RuntimeStep)} {key : String} {e : Effect}

/-- Phase 0 drops the reconstructed effects and nothing else. -/
theorem dropReconstructed_iff {authority : String} {effects : List Effect}
    {pending pending' : StringMap Effect}
    (h : dropReconstructed authority effects pending = .ok pending') :
    pending'[key]? = some e ↔
      pending[key]? = some e ∧ ∀ x ∈ effects, effectKey x ≠ some key := by
  induction effects generalizing pending with
  | nil =>
    obtain rfl := Except.ok.inj h
    simp
  | cons a effects ih =>
    simp only [dropReconstructed] at h
    split at h
    case h_1 => cases h
    case h_2 k hk =>
      split at h
      case isTrue => cases h
      case isFalse =>
        rw [ih h, ExtTreeMap.getElem?_erase, List.forall_mem_cons, hk]
        by_cases hkk : k = key
        · simp [hkk]
        · simp [hkk]

/-! ## One step -/

/-- The step asks for the effect, which is due. -/
def asks (key : String) (e : Effect) (r : ProcessorRuntime) (step : RuntimeStep) : Prop :=
  ∃ cmd now q effects, step = .apply cmd now ∧ r.processor.apply cmd = .ok (q, effects) ∧
    e ∈ effects ∧ effectKey e = some key ∧ Processor.Owed cmd q e

/-- The step answers what stands under the key, or drops it as reconstructed. -/
def answers (key : String) (r : ProcessorRuntime) : RuntimeStep → Prop
  | .apply cmd _ => acknowledgementKey r.processor cmd = .ok (some key)
  | .complete answered => answered = key
  | .supersede _ reconstructed => ∃ x ∈ reconstructed, effectKey x = some key
  | .appendOnly .. | .resume => False

theorem answered_iff {ack : Option String} :
    (r.answered ack)[key]? = some e ↔ r.pending[key]? = some e ∧ ack ≠ some key := by
  cases ack with
  | none => simp [answered]
  | some k =>
    rw [answered, ExtTreeMap.getElem?_erase]
    by_cases hk : k = key
    · simp [hk]
    · simp [hk]

/-- **What a step leaves in the ledger**: what it asks for, and what it does not answer. -/
theorem next_pending_iff {step : RuntimeStep} (hsound : Sound r.processor)
    (h : r.next eventId step = some s) :
    s.pending[key]? = some e ↔
      asks key e r step ∨ r.pending[key]? = some e ∧ ¬answers key r step := by
  have hidle (hpend : s.pending = r.pending) (hasks : ¬asks key e r step)
      (hanswers : ¬answers key r step) : s.pending[key]? = some e ↔
        asks key e r step ∨ r.pending[key]? = some e ∧ ¬answers key r step := by
    rw [hpend]
    simp [hasks, hanswers]
  cases step with
  | apply cmd now =>
    obtain ⟨t, ht, -, hp, hpend⟩ := next_apply h
    obtain ⟨ack, hack, -, happly, henter, -⟩ := transition_spec ht
    rw [hpend, enterEffects_iff henter, answered_iff]
    refine or_congr ⟨fun ⟨hmem, hkey⟩ => ?_, ?_⟩ (and_congr_right fun _ => not_congr ?_)
    · exact ⟨cmd, now, t.processor, t.effects, rfl, happly, hmem, hkey,
        Processor.owed_of_apply hsound happly e hmem⟩
    · rintro ⟨cmd', now', q, effects, heq, happly', hmem, hkey, -⟩
      obtain ⟨rfl, rfl⟩ := RuntimeStep.apply.inj heq
      obtain ⟨-, rfl⟩ := Prod.mk.inj (Except.ok.inj (happly.symm.trans happly'))
      exact ⟨hmem, hkey⟩
    · rw [answers, hack]
      exact ⟨fun heq => congrArg _ heq, fun heq => Except.ok.inj heq⟩
  | appendOnly cmd now count =>
    refine hidle (next_appendOnly h).2.1 ?_ id
    rintro ⟨_, _, _, _, heq, -⟩
    cases heq
  | complete k =>
    obtain ⟨effect, -, -, hpend, -⟩ := next_complete h
    have hasks : ¬asks key e r (.complete k) := by
      rintro ⟨_, _, _, _, heq, -⟩
      cases heq
    rw [hpend, ExtTreeMap.getElem?_erase, answers]
    by_cases hk : k = key
    · subst hk
      simp [hasks]
    · simp [hk, hasks]
  | supersede authority reconstructed =>
    obtain ⟨-, -, k, -, -, hdrop⟩ := next_supersede h
    have hasks : ¬asks key e r (.supersede authority reconstructed) := by
      rintro ⟨_, _, _, _, heq, -⟩
      cases heq
    rw [dropReconstructed_iff hdrop, answers]
    simp [hasks]
  | resume =>
    refine hidle (next_resume h).2.1 ?_ id
    rintro ⟨_, _, _, _, heq, -⟩
    cases heq

/-! ## The runs -/

/-- The reducer's steps behind a run, each with the state it was taken in. -/
def reducerTrace (tr : List (ProcessorRuntime × RuntimeStep)) : List (Processor × ProcessorStep) :=
  tr.filterMap fun x => (x.1.reducerStep x.2).map (x.1.processor, ·)

theorem run_reducer (h : Run (next eventId) r tr s) :
    Run Processor.next r.processor (reducerTrace tr) s.processor := by
  induction h with
  | nil => exact .nil
  | @snoc tr t step u _ hn ih =>
    have hmove := next_reducer hn
    unfold reducerTrace at ih ⊢
    rw [List.filterMap_append, List.filterMap_cons, List.filterMap_nil]
    cases hstep : t.reducerStep step with
    | none =>
      rw [hstep] at hmove
      rw [show u.processor = t.processor from hmove]
      simpa using ih
    | some move =>
      rw [hstep] at hmove
      exact .snoc ih hmove

/-- A run to a cohort whose publication is outstanding. -/
theorem run_verified : ∃ tr s, Run (next id) freshRuntime tr s ∧
    s.pending["publish"]? = some (.publish "B-1") := by
  have hrun : (exec (next id) freshRuntime verified).any
      (fun s => decide (s.pending["publish"]? = some (.publish "B-1"))) = true := by
    decide +kernel
  obtain ⟨tr, s, hr, -, hpend⟩ := run_of_exec hrun
  exact ⟨tr, s, hr, by simpa using hpend⟩

/-- **Every run of the runtime is a run of the abstract course**, along the commands, the
acknowledgements and the restarts that reached its reducer. -/
theorem runtime_refined (hnew : new config = .ok r0) (hrun : Run (next eventId) r0 tr s) :
    s.processor.config = config ∧ Path (Moves config) Course.initial
      ((reducerTrace tr).map (·.2)) s.processor.course := by
  obtain ⟨⟨-, hconfig⟩, hpath⟩ :=
    Processor.path_of_run (new_reducer hnew).1 (run_reducer hrun)
  exact ⟨hconfig, hpath⟩

theorem runtime_refined_verified :
    ∃ (tr : List (ProcessorRuntime × RuntimeStep)) (s : ProcessorRuntime),
      Path (Moves {}) Course.initial ((reducerTrace tr).map (·.2)) s.processor.course := by
  obtain ⟨tr, s, hrun, -⟩ := run_verified
  exact ⟨tr, s, (runtime_refined (show new {} = .ok freshRuntime from rfl) hrun).2⟩

/-- **The ledger of every run is exactly what was asked for and is not answered yet.** An effect
stands under its key iff a command asked for it, being due, and no later step answered the key. -/
theorem ledger_exact (hnew : new config = .ok r0) (hrun : Run (next eventId) r0 tr s) :
    s.pending[key]? = some e ↔ Outstanding tr (asks key e) (answers key) := by
  obtain ⟨hproc, hempty, -⟩ := new_reducer hnew
  refine hrun.outstanding_iff (P := fun r => r.pending[key]? = some e) ?_
    fun pre t step u hr hn => next_pending_iff ?_ hn
  · rw [hempty]
    simp
  · exact Processor.sound_of_run hproc (run_reducer hr)

theorem ledger_exact_publish : ∃ tr : List (ProcessorRuntime × RuntimeStep),
    Outstanding tr (asks "publish" (.publish "B-1")) (answers "publish") := by
  obtain ⟨tr, s, hrun, hpend⟩ := run_verified
  exact ⟨tr, (ledger_exact (show new {} = .ok freshRuntime from rfl) hrun).1 hpend⟩

end ProcessorRuntime

end Orchestrail
