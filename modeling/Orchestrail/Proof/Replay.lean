import Orchestrail.Spec.Replay
import Orchestrail.Proof.Drive
import Orchestrail.Proof.LeafLaunches

/-!
# Nothing interrupted is forgotten

A command of the scheduler acknowledges nothing, so it finds an empty ledger, or is Phase 0. Phase 0
lets every outstanding effect be run again, or stands aside for one that has to be inspected; and
the drive behind it answers all of them, if it comes to rest. Then the ledger is empty, as the next
command needs it.

* `recover_plain`: Phase 0 reconstructs no workspace and no preparation of a leaf.
-/

namespace Orchestrail

open Std Table Steps Outcome ProcessorRuntime

/-! ## What Phase 0 reconstructs -/

namespace Processor

variable {p q : Processor} {effects : List Effect} {e : Effect}

theorem cleanupEffects_plain (h : e ∈ p.cleanupEffects) : supersedingTask e = none := by
  have hjournal : ∀ e ∈ (if p.state.integration.cleanupJournaled then []
      else [Effect.writeJournalAndStatus]), supersedingTask e = none := by
    split <;> simp [supersedingTask]
  unfold cleanupEffects at h
  simp only at h
  split at h
  · rcases List.mem_append.1 h with h | h
    · exact hjournal e h
    · obtain rfl := List.mem_singleton.1 h
      rfl
  · simp only [List.mem_append, List.mem_flatMap] at h
    rcases h with (h | ⟨t, -, h⟩) | h
    · exact hjournal e h
    · unfold cleanupOf at h
      split at h
      all_goals
        simp only [List.mem_cons, List.not_mem_nil, or_false] at h
      · rcases h with rfl | rfl <;> rfl
      · rcases h with rfl | rfl <;> rfl
      · obtain rfl := h; rfl
      · obtain rfl := h; rfl
    · simp only [List.mem_cons, List.not_mem_nil, or_false] at h
      rcases h with rfl | rfl <;> rfl

def Plain (x : Processor × List Effect) : Prop := ∀ e ∈ x.2, supersedingTask e = none

theorem plain_one (h : supersedingTask e = none) : Plain (p, [e]) := by
  intro x hx
  rwa [List.mem_singleton.1 hx]

theorem nextMergeOrReview_plain : Post p.nextMergeOrReview Plain := by
  unfold nextMergeOrReview
  split
  · simp only [post_bind]
    exact post_of_forall fun branch => post_ok.2 (plain_one rfl)
  split
  · exact post_ok.2 (plain_one rfl)
  split
  · exact post_ok.2 (plain_one rfl)
  split
  · exact post_ok.2 (plain_one rfl)
  · exact post_ok.2 (plain_one rfl)

theorem publishingResumeEffect_plain :
    Post p.publishingResumeEffect fun x => supersedingTask x.2 = none := by
  unfold publishingResumeEffect
  dsimp only
  split
  · simp only [post_bind]
    exact post_of_forall fun id => post_ok.2 rfl
  split
  · exact post_ok.2 rfl
  split
  · simp only [post_bind]
    exact post_of_forall fun id => post_ok.2 rfl
  split
  · exact post_ok.2 rfl
  · exact post_ok.2 rfl

theorem resumePhase_plain : Post p.resumePhase Plain := by
  unfold resumePhase
  split
  · refine post_ok.2 (plain_one ?_)
    unfold rollingBoundaryEffect inboxReconciliationEffect
    split <;> rfl
  · exact nextMergeOrReview_plain
  · simp only [post_bind]
    exact publishingResumeEffect_plain.mono fun x h => post_ok.2 (plain_one h)
  · exact post_ok.2 (plain_one rfl)

theorem recover_plain {ws : StringSet} (hs : Sound p) : Post (p.recover ws) Plain := by
  simp only [recover, post_bind, post_require, post_ite, post_ok]
  intro _
  refine ⟨fun _ => plain_one rfl, fun _ => ?_⟩
  rintro ⟨tasks, work, hold⟩ hscan
  obtain ⟨rfl, hnone, -⟩ := recoverTasks_sound hs hscan
  dsimp only
  cases hold with
  | some reason => exact post_ok.2 (plain_one rfl)
  | none =>
    obtain ⟨-, rfl⟩ := hnone rfl
    -- the work of the pass is reconciliation only
    have hwork : ∀ e ∈ p.taskList.flatMap (recoveryWork ws), supersedingTask e = none := by
      intro e he
      obtain ⟨t, -, he⟩ := List.mem_flatMap.1 he
      unfold recoveryWork at he
      split at he
      · obtain rfl := List.mem_singleton.1 he
        rfl
      · cases he
    have hafter : ∀ more : List Effect, (∀ e ∈ more, supersedingTask e = none) →
        ∀ e ∈ p.taskList.flatMap (recoveryWork ws) ++ more, supersedingTask e = none :=
      fun more hmore e he => (List.mem_append.1 he).elim (hwork e) (hmore e)
    simp only [post_ite]
    refine ⟨fun _ => post_ok.2 fun e he => ?_, fun _ => ⟨fun _ => ?_, fun _ =>
      ⟨fun _ => resumePhase_plain, fun _ => ⟨fun _ => ?_, fun _ => post_ok.2 hwork⟩⟩⟩⟩
    · exact (mem_orderCleanup he).elim cleanupEffects_plain (hwork e)
    · simp only [post_bind]
      exact nextMergeOrReview_plain.mono fun x h => post_ok.2 (hafter _ h)
    · simp only [post_bind]
      refine publishingResumeEffect_plain.mono fun x h => post_ok.2 (hafter _ fun e he => ?_)
      rwa [List.mem_singleton.1 he]

theorem guardModelEffect_plain {config : ProcessorConfig} (h : supersedingTask e = none) :
    supersedingTask (guardModelEffect config e) = none := by
  unfold guardModelEffect
  split
  · split
    · rfl
    split
    · rfl
    · exact h
  · exact h

theorem apply_recover_plain {ws : StringSet} (hs : Sound p)
    (h : p.apply (.recover ws) = .ok (q, effects)) (he : e ∈ effects) :
    supersedingTask e = none := by
  cases hstand : p.standingReply (.recover ws) with
  | some reply =>
    obtain ⟨reason, rfl⟩ := (apply_standing h (by simp [hstand])).2 e he
    rfl
  | none =>
    unfold apply at h
    rw [hstand] at h
    simp only [bind_eq_ok] at h
    obtain ⟨⟨next, more⟩, hrecover, h⟩ := h
    obtain ⟨rfl, rfl⟩ := Prod.mk.inj (Except.ok.inj h)
    have hplain : ∀ e ∈ next.guardModelEffects more, supersedingTask e = none := by
      intro e he
      obtain ⟨e', he', rfl⟩ := List.mem_map.1 he
      exact guardModelEffect_plain (recover_plain hs _ hrecover e' he')
    simp only [isBudgetCheck, Bool.false_eq_true, if_false] at he
    unfold persistFirst at he
    split at he
    · cases he
    · rename_i hcase
      rw [hcase] at hplain
      exact hplain e he
    · rcases List.mem_cons.1 he with rfl | he
      · rfl
      · exact hplain e he

end Processor

namespace ProcessorRuntime

variable {eventId : String → String} {r s r0 : ProcessorRuntime} {config : ProcessorConfig}
  {effects effects' rest : List Effect} {replay e : Effect} {key : String}
  {safety : ReplaySafety} {debug : Effect → String}

/-! ## What is run again -/

/-- **Everything outstanding is run again**, unless it has to be inspected; a reconciliation gives
way to the effect of its task. -/
theorem replayable_covers (hhold : r.inspectionRecoveryHold safety debug = none)
    (he : r.pending[key]? = some e) :
    e ∈ r.replayableRecoveryEffectsFor safety ∨
      ∃ id, e = .reconcile id ∧
        ∃ x ∈ r.replayableRecoveryEffectsFor safety, supersedingTask x = some id := by
  have hentry : (key, e) ∈ r.pending.toList := ExtTreeMap.mem_toList_iff_getElem?_eq_some.2 he
  have hhold : ∀ requirement ∈ r.recoveryRequirements, _ = none :=
    List.findSome?_eq_none_iff.1 hhold
  unfold replayableRecoveryEffectsFor
  simp only
  generalize hpre : r.interruptedEffects safety = pre
  have hmem : e ∈ pre := by
    rw [← hpre]
    unfold interruptedEffects
    refine List.mem_filterMap.2 ⟨_, List.mem_map.2 ⟨(key, e), hentry, rfl⟩, ?_⟩
    by_cases hretry : retryIdempotently e = true
    · simp [hretry]
    · have hsafe := hhold _ (List.mem_map.2 ⟨(key, e), hentry, rfl⟩)
      simp only [hretry, Bool.false_eq_true, if_false] at hsafe ⊢
      split at hsafe
      · rename_i hsafe'
        simp [hsafe']
      · cases hsafe
  by_cases hsup : ∃ id, e = .reconcile id ∧ id ∈ pre.filterMap supersedingTask
  · obtain ⟨id, rfl, hid⟩ := hsup
    obtain ⟨x, hx, hxid⟩ := List.mem_filterMap.1 hid
    refine .inr ⟨id, rfl, x, List.mem_filter.2 ⟨hx, ?_⟩, hxid⟩
    cases x <;> first | rfl | cases hxid
  · refine .inl (List.mem_filter.2 ⟨hmem, ?_⟩)
    split
    · rename_i id
      have hid : id ∉ pre.filterMap supersedingTask := fun hid => hsup ⟨id, rfl, hid⟩
      simpa using hid
    · rfl

/-! ## Activation -/

/-- Between two activations: what is outstanding is among the effects to drive, or still to be
activated itself or by an effect of its task. -/
structure Replaying (r : ProcessorRuntime) (effects rest : List Effect) : Prop where
  filed : r.Filed
  /-- the effect of a task has taken the place of its reconciliation -/
  taken : ∀ x ∈ effects, ∀ id, supersedingTask x = some id → r.pending["reconcile:" ++ id]? = none
  covered : ∀ key e, r.pending[key]? = some e →
    (∃ x ∈ effects, effectKey x = some key) ∨ e ∈ rest ∨
      ∃ id, e = .reconcile id ∧ ∃ x ∈ rest, supersedingTask x = some id

namespace Replaying

theorem skip (h : Replaying r effects (replay :: rest)) (hin : replay ∈ effects) :
    Replaying r effects rest where
  filed := h.filed
  taken := h.taken
  covered key e he := by
    rcases h.covered key e he with hkey | hmem | ⟨id, rfl, x, hx, hid⟩
    · exact .inl hkey
    · rcases List.mem_cons.1 hmem with rfl | hmem
      · exact .inl ⟨_, hin, h.filed _ _ he⟩
      · exact .inr (.inl hmem)
    · rcases List.mem_cons.1 hx with rfl | hx
      · obtain rfl := Option.some.inj (h.filed _ _ he)
        rw [h.taken _ hin id hid] at he
        cases he
      · exact .inr (.inr ⟨id, rfl, x, hx, hid⟩)

/-- The effect to run again takes the place of what was reconstructed for it. -/
theorem supersede (reconstructed : List Effect) (h : Replaying r effects (replay :: rest))
    (hpend : ∀ key e, s.pending[key]? = some e ↔
      r.pending[key]? = some e ∧ ∀ x ∈ reconstructed, effectKey x ≠ some key)
    (hkeep : ∀ x ∈ effects, x ∈ effects' ∨ x ∈ reconstructed)
    (hnew : ∀ x ∈ effects', x ∈ effects ∨ x = replay) (hin : replay ∈ effects')
    (hrec : ∀ id, supersedingTask replay = some id → .reconcile id ∈ reconstructed) :
    Replaying s effects' rest where
  filed key e he := h.filed key e ((hpend key e).1 he).1
  taken x hx id hid := by
    rw [Option.eq_none_iff_forall_ne_some]
    intro e he
    obtain ⟨hold, hne⟩ := (hpend _ e).1 he
    rcases hnew x hx with hx | rfl
    · rw [h.taken x hx id hid] at hold
      cases hold
    · exact hne _ (hrec id hid) rfl
  covered key e he := by
    obtain ⟨hold, hne⟩ := (hpend key e).1 he
    rcases h.covered key e hold with ⟨x, hx, hkey⟩ | hmem | ⟨id, rfl, x, hx, hid⟩
    · rcases hkeep x hx with hx | hx
      · exact .inl ⟨x, hx, hkey⟩
      · exact absurd hkey (hne x hx)
    · rcases List.mem_cons.1 hmem with rfl | hmem
      · exact .inl ⟨_, hin, h.filed _ _ hold⟩
      · exact .inr (.inl hmem)
    · rcases List.mem_cons.1 hx with rfl | hx
      · exact absurd (h.filed _ _ hold) (hne _ (hrec id hid))
      · exact .inr (.inr ⟨id, rfl, x, hx, hid⟩)

/-- An effect that reconstructs nothing joins the others. -/
theorem push (h : Replaying r effects (replay :: rest)) (hnone : supersedingTask replay = none) :
    Replaying r (effects ++ [replay]) rest := by
  refine h.supersede [] (by simp) (fun x hx => ?_) (fun x hx => ?_) ?_ ?_
  · exact .inl (List.mem_append_left _ hx)
  · simpa using hx
  · simp
  · rw [hnone]
    intro id hid
    cases hid

end Replaying

theorem ofRuntimeCall_eq_ok {ε α : Type} {x : Ran α} {a : α} :
    (ofRuntimeCall x : Except (NativeLoopError ε) α) = .ok a ↔ x = .ok a := by
  cases x <;> simp [ofRuntimeCall]

theorem supersede_run (eventId : String → String) {authority : Effect} {reconstructed : List Effect}
    (h : r.supersedeRecoveryEffectsWithPending authority reconstructed = .ok s) :
    Run (next eventId) r [(r, .supersede authority reconstructed)] s ∧
      ∀ key e, s.pending[key]? = some e ↔
        r.pending[key]? = some e ∧ ∀ x ∈ reconstructed, effectKey x ≠ some key := by
  have hnext : r.next eventId (.supersede authority reconstructed) = some s := by
    simp [next, h, Except.toOption]
  obtain ⟨-, -, k, -, -, hdrop⟩ := next_supersede hnext
  exact ⟨.snoc .nil hnext, fun key e => dropReconstructed_iff hdrop⟩

theorem supersedeReconcile_eq_ok {id : String} (hid : supersedingTask replay = some id)
    (h : r.supersedeReconcileWithPendingTaskEffect replay = .ok s) :
    r.supersedeRecoveryEffectsWithPending replay [.reconcile id] = .ok s := by
  unfold supersedeReconcileWithPendingTaskEffect at h
  split at h
  all_goals first
    | (obtain rfl := Option.some.inj hid
       split at h
       · cases h
       · split at h
         · cases h
         · split at h
           · cases h
           · exact h)
    | cases h

section Replace

variable {α : Type} [DecidableEq α] {a b c x : α} {l : List α}

theorem replace_cons_of_ne (hc : a ≠ c) : (c :: l).replace a b = c :: l.replace a b := by
  have hbeq : (a == c) = false := by simpa using hc
  rw [List.replace_cons, hbeq]

theorem mem_replace_new (ha : a ∈ l) : b ∈ l.replace a b := by
  induction l with
  | nil => cases ha
  | cons c l ih =>
    by_cases hc : a = c
    · simp [hc]
    · rw [replace_cons_of_ne hc]
      exact List.mem_cons_of_mem _ (ih ((List.mem_cons.1 ha).resolve_left hc))

theorem mem_replace_old (hx : x ∈ l) : x ∈ l.replace a b ∨ x = a := by
  induction l with
  | nil => cases hx
  | cons c l ih =>
    by_cases hc : a = c
    · subst hc
      rw [List.replace_cons_self, List.mem_cons]
      exact (List.mem_cons.1 hx).symm.imp_left .inr
    · rw [replace_cons_of_ne hc]
      rcases List.mem_cons.1 hx with rfl | hx
      · exact .inl List.mem_cons_self
      · exact (ih hx).imp_left (List.mem_cons_of_mem _)

theorem of_mem_replace (hx : x ∈ l.replace a b) : x ∈ l ∨ x = b := by
  induction l with
  | nil => cases hx
  | cons c l ih =>
    by_cases hc : a = c
    · subst hc
      rw [List.replace_cons_self] at hx
      exact (List.mem_cons.1 hx).symm.imp_left (List.mem_cons_of_mem _)
    · rw [replace_cons_of_ne hc] at hx
      rcases List.mem_cons.1 hx with rfl | hx
      · exact .inl List.mem_cons_self
      · exact (ih hx).imp_left (List.mem_cons_of_mem _)

end Replace

theorem activateRecoveryEffect_replaying (eventId : String → String) {ε : Type}
    (hact : (activateRecoveryEffect r effects replay :
      Except (NativeLoopError ε) (ProcessorRuntime × List Effect)) = .ok (s, effects'))
    (h : Replaying r effects (replay :: rest)) :
    (∃ tr, Run (next eventId) r tr s) ∧ Replaying s effects' rest := by
  unfold activateRecoveryEffect at hact
  split at hact
  case h_1 =>
    obtain ⟨rfl, rfl⟩ := Prod.mk.inj (Except.ok.inj hact)
    exact ⟨⟨[], .nil⟩, h.push rfl⟩
  case h_2 =>
    obtain ⟨rfl, rfl⟩ := Prod.mk.inj (Except.ok.inj hact)
    exact ⟨⟨[], .nil⟩, h.push rfl⟩
  case h_3 =>
    simp only at hact
    split at hact
    case isTrue => cases hact
    case isFalse =>
      simp only [bind_eq_ok, ofRuntimeCall_eq_ok] at hact
      obtain ⟨t, ht, hact⟩ := hact
      obtain ⟨rfl, rfl⟩ := Prod.mk.inj (Except.ok.inj hact)
      obtain ⟨hrun, hpend⟩ := supersede_run eventId ht
      refine ⟨⟨_, hrun⟩, h.supersede _ hpend (fun x hx => ?_) (fun x hx => ?_) (by simp) ?_⟩
      · by_cases hrec : x ∈ effects.filter isCleanupProjection
        · exact .inr hrec
        · refine .inl (List.mem_append_left _ (List.mem_filter.2 ⟨hx, ?_⟩))
          have hnot : isCleanupProjection x = false := by simpa [hx] using hrec
          simp [hnot]
      · rcases List.mem_append.1 hx with hx | hx
        · exact .inl (List.mem_filter.1 hx).1
        · exact .inr (List.mem_singleton.1 hx)
      · intro id hid
        cases hid
  case h_4 =>
    split at hact
    case h_1 => cases hact
    case h_2 id hid =>
      split at hact
      case isFalse => cases hact
      case isTrue hmem =>
        simp only [bind_eq_ok, ofRuntimeCall_eq_ok] at hact
        obtain ⟨t, ht, hact⟩ := hact
        obtain ⟨rfl, rfl⟩ := Prod.mk.inj (Except.ok.inj hact)
        obtain ⟨hrun, hpend⟩ := supersede_run eventId (supersedeReconcile_eq_ok hid ht)
        refine ⟨⟨_, hrun⟩, h.supersede _ hpend (fun x hx => ?_) (fun x hx => ?_) ?_ ?_⟩
        · exact (mem_replace_old hx).imp_right List.mem_singleton.2
        · exact of_mem_replace hx
        · exact mem_replace_new hmem
        · intro id' hid'
          obtain rfl := Option.some.inj (hid.symm.trans hid')
          exact List.mem_singleton_self _

/-- **When all are activated, everything outstanding is among the effects to drive.** -/
theorem activateRecoveryEffects_replaying (eventId : String → String) {ε : Type}
    {replayable : List Effect}
    (hact : (activateRecoveryEffects replayable r effects :
      ProcessorRuntime × Except (NativeLoopError ε) (List Effect)) = (s, .ok effects'))
    (h : Replaying r effects replayable) :
    (∃ tr, Run (next eventId) r tr s) ∧ Replaying s effects' [] := by
  induction replayable generalizing r effects with
  | nil =>
    obtain ⟨rfl, hres⟩ := Prod.mk.inj hact
    obtain rfl := Except.ok.inj hres
    exact ⟨⟨[], .nil⟩, h⟩
  | cons replay rest ih =>
    unfold activateRecoveryEffects at hact
    split at hact
    case isTrue hin => exact ih hact (h.skip hin)
    case isFalse =>
      split at hact
      case h_1 t more hone =>
        obtain ⟨⟨tr, hrun⟩, hrest⟩ := activateRecoveryEffect_replaying eventId hone h
        obtain ⟨⟨tr', hrun'⟩, hdone⟩ := ih hact hrest
        exact ⟨⟨_, hrun.append hrun'⟩, hdone⟩
      case h_2 =>
        obtain ⟨-, hres⟩ := Prod.mk.inj hact
        cases hres

/-! ## The command and its drive -/

variable {σ ε : Type} {executor : EffectExecutor σ ε} {command : ProcessorCommand}
  {occurredAt : String} {maxEffects : Nat} {own own' : σ} {report : DriveReport}

/-- A drive of everything outstanding that comes to rest leaves nothing outstanding. -/
theorem drive_drained {d : Driver σ}
    (h : drive eventId executor occurredAt maxEffects r effects own = some (d, .ok none))
    (hcov : ∀ key e, r.pending[key]? = some e → ∃ x ∈ effects, effectKey x = some key) :
    (∃ tr, Run (next eventId) r tr d.runtime) ∧ d.runtime.pending = ∅ := by
  obtain ⟨d', result, hdrive, ⟨tr, hacc⟩, -, hrest⟩ :=
    drive_accounts eventId executor occurredAt maxEffects r effects own
  obtain ⟨rfl, rfl⟩ := Prod.mk.inj (Option.some.inj (hdrive.symm.trans h))
  refine ⟨⟨tr, hacc.run⟩, ExtTreeMap.ext_getElem? fun key => ?_⟩
  rw [ExtTreeMap.getElem?_empty, Option.eq_none_iff_forall_ne_some]
  intro e he
  rcases hacc.covered key e he with ⟨x, hx, -⟩ | ⟨hold, hnot⟩
  · rw [hrest rfl] at hx
    cases hx
  · obtain ⟨x, hx, hkey⟩ := hcov key e hold
    exact hnot x hx hkey

theorem driveCommand_drained {replayable : List Effect}
    (h : driveCommand eventId executor occurredAt maxEffects command replayable r own =
      some (s, own', .ok report))
    (hheld : report.held = none)
    (hstart : ∀ at' t effects, r.applyAt eventId command at' = .ok (t, effects) →
      ∀ u effects', (activateRecoveryEffects replayable t effects :
        ProcessorRuntime × Except (NativeLoopError ε) (List Effect)) = (u, .ok effects') →
      (∃ tr, Run (next eventId) t tr u) ∧
        ∀ key e, u.pending[key]? = some e → ∃ x ∈ effects', effectKey x = some key) :
    (∃ tr, Run (next eventId) r tr s) ∧ s.pending = ∅ := by
  unfold driveCommand at h
  split at h
  case h_1 => simp at h
  case h_2 at' own1 _ =>
    split at h
    case h_1 => simp at h
    case h_2 t effects happly =>
      split at h
      case h_1 => simp at h
      case h_2 u effects' hact =>
        obtain ⟨⟨tr, hrun⟩, hcov⟩ := hstart _ _ _ happly _ _ hact
        obtain ⟨⟨d, result⟩, hdrive, h⟩ := Option.map_eq_some_iff.1 h
        simp only [Prod.mk.injEq] at h
        obtain ⟨rfl, -, hreport⟩ := h
        cases result with
        | error failure => cases hreport
        | ok held =>
          obtain rfl := Except.ok.inj hreport
          obtain rfl : held = none := hheld
          obtain ⟨⟨tr', hrun'⟩, hempty⟩ := drive_drained hdrive hcov
          exact ⟨⟨_, ((run_applyAt happly).1.append hrun).append hrun'⟩, hempty⟩

/-- **Behind a command of the scheduler that came to rest the ledger is empty**, whatever the
executor answered and whatever an interrupted turn had left in the ledger: every effect of the
command, of its successors and of before it was acknowledged. -/
theorem scheduled_drained (hnew : new config = .ok r0)
    {tr : List (ProcessorRuntime × RuntimeStep)} (hrun : Run (next eventId) r0 tr r)
    (hcmd : acknowledgementKey r.processor command = .ok none)
    (h : runCommand eventId executor occurredAt maxEffects safety debug command r own =
      some (s, own', .ok report))
    (hheld : report.held = none) : (∃ tr, Run (next eventId) r tr s) ∧ s.pending = ∅ := by
  have hsound : Sound r.processor :=
    Processor.sound_of_run (new_reducer hnew).1 (run_reducer hrun)
  -- what is outstanding behind an unkeyed command was so before, or is its effect
  have hpending : ∀ cmd at' t effects, acknowledgementKey r.processor cmd = .ok none →
      r.applyAt eventId cmd at' = .ok (t, effects) →
      r.checkAcknowledgement cmd none = .ok () ∧
        r.processor.apply cmd = .ok (t.processor, effects) ∧ ∀ key e, t.pending[key]? = some e →
          (∃ x ∈ effects, effectKey x = some key) ∨ r.pending[key]? = some e := by
    intro cmd at' t effects hkey happly
    obtain ⟨u, hu, -, hp, hpend, rfl⟩ := applyAt_spec happly
    obtain ⟨ack, hack, hcheck, happly, henter, -⟩ := transition_spec hu
    obtain rfl := Except.ok.inj (hkey.symm.trans hack)
    refine ⟨hcheck, hp ▸ happly, fun key e he => ?_⟩
    rw [hpend, enterEffects_iff henter] at he
    exact he.imp_left fun hx => ⟨e, hx⟩
  unfold runCommand at h
  split at h
  case h_1 ws =>
    split at h
    case h_1 =>
      simp only [Option.some.injEq, Prod.mk.injEq, Except.ok.injEq] at h
      obtain ⟨-, -, rfl⟩ := h
      cases hheld
    case h_2 hhold =>
      refine driveCommand_drained h hheld fun at' t effects happly u effects' hact => ?_
      obtain ⟨-, happly', hcov⟩ := hpending _ _ _ _ rfl happly
      have hreplaying : Replaying t effects (r.replayableRecoveryEffectsFor safety) := by
        refine ⟨?_, fun x hx id hid => ?_, fun key e he => ?_⟩
        · have hreach : Reach (next eventId) (fun _ _ => True) r0 t :=
            (hrun.append (run_applyAt happly).1).reach fun _ _ => trivial
          exact filed_of_reach hnew hreach
        · rw [Processor.apply_recover_plain hsound happly' hx] at hid
          cases hid
        · exact (hcov key e he).imp_right (replayable_covers hhold)
      obtain ⟨htr, hdone⟩ := activateRecoveryEffects_replaying eventId hact hreplaying
      refine ⟨htr, fun key e he => ?_⟩
      rcases hdone.covered key e he with hx | hx | ⟨_, _, x, hx, _⟩
      · exact hx
      · cases hx
      · cases hx
  case h_2 hother =>
    refine driveCommand_drained h hheld fun at' t effects happly u effects' hact => ?_
    obtain ⟨hcheck, -, hcov⟩ := hpending _ _ _ _ hcmd happly
    obtain ⟨rfl, hres⟩ := Prod.mk.inj hact
    obtain rfl := Except.ok.inj hres
    -- a command that acknowledges nothing was accepted before an empty ledger
    have hempty : r.pending.isEmpty = true := by
      unfold checkAcknowledgement at hcheck
      cases command with
      | recover ws => exact absurd rfl (hother ws)
      | _ =>
        simp only at hcheck
        split at hcheck
        · assumption
        · cases hcheck
    refine ⟨⟨[], .nil⟩, fun key e he => (hcov key e he).resolve_right fun hold => ?_⟩
    rw [ExtTreeMap.isEmpty_iff.1 hempty, ExtTreeMap.getElem?_empty] at hold
    cases hold

section Sample

/-- An executor that acknowledges whatever it is given. -/
def acknowledging : EffectExecutor Unit Unit where
  eventOccurredAt own fallback := (.ok fallback, own)
  execute own _ _ := (.ok .acknowledge, own)
  takeLeafSession own _ := (none, own)
  executeBatch own effects _ := (.ok (effects.map fun _ => .acknowledge), own)

/-- Phase 0 by that executor. -/
def recovered (r : ProcessorRuntime) :
    Option (ProcessorRuntime × Unit × Except (NativeLoopError Unit) DriveReport) :=
  runCommand id acknowledging "2026-07-24T12:00:00Z" 10 {} (fun _ => "") (.recover ∅) r ()

/-- A process that stopped before its first journal entry was answered. -/
theorem run_interrupted : ∃ tr r s report, Run (next id) freshRuntime tr r ∧
    r.pending.isEmpty = false ∧ recovered r = some (s, (), .ok report) ∧ report.held = none := by
  have hrun : (exec (next id) freshRuntime (applied [.recover ∅] ++ [.resume])).any (fun r =>
      !r.pending.isEmpty && (recovered r).any fun x =>
        match x.2.2 with
        | .ok report => report.held.isNone
        | .error _ => false) = true := by
    decide +kernel
  obtain ⟨tr, r, hr, -, h⟩ := run_of_exec hrun
  obtain ⟨hpend, h⟩ := Bool.and_eq_true_iff.1 h
  obtain ⟨⟨s, own, result⟩, hs, hres⟩ := (Option.any_eq_true _ _).1 h
  cases result with
  | error error => cases hres
  | ok report =>
    exact ⟨tr, r, s, report, hr, by simpa using hpend, hs, by simpa using hres⟩

end Sample

theorem scheduled_drained_interrupted : ∃ r s : ProcessorRuntime,
    r.pending.isEmpty = false ∧ (∃ report, recovered r = some (s, (), .ok report)) ∧
      s.pending = ∅ := by
  obtain ⟨tr, r, s, report, hrun, hpend, hrec, hheld⟩ := run_interrupted
  exact ⟨r, s, hpend, ⟨report, hrec⟩,
    (scheduled_drained (show new {} = .ok freshRuntime from rfl) hrun rfl hrec hheld).2⟩

end ProcessorRuntime

end Orchestrail
