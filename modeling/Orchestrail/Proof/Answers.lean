import Orchestrail.Spec.Drive
import Orchestrail.Proof.Keys

/-!
# Every effect is answered under its own key

The three tables of the engine (what the executor answers, the key of an effect, the key a command
acknowledges) agree effect by effect, with two exceptions that only a port answer can bring about.

* `accepted_iff`: an answer that passes the checks of the driver is not refused by the runtime.
-/

namespace Orchestrail

open Std Table Steps

variable {ε : Type}

namespace Processor

/-- A leaf effect is of the kind its task is running; other keys do not depend on the state. -/
def Coherent (p : Processor) : Effect → Prop
  | .prepareTaskLeaf taskId kind =>
    ∃ t, p.state.tasks[taskId]? = some t ∧ leafKindOf t.phase = some kind
  | .dispatchTask taskId kind =>
    kind = .review ∨ ∃ t, p.state.tasks[taskId]? = some t ∧ leafKindOf t.phase = some kind
  | _ => True

end Processor

/-- The command is a result of the effect, on the given task. The leaf of a task is of the kind its
phase runs. -/
inductive ResultOf (state : ProcessorState) (taskId : String) : ProcessorCommand → Effect → Prop
  | workspaceReady {branch} :
      ResultOf state taskId (.workspaceReady taskId) (.ensureTaskWorkspace taskId branch)
  | workspaceFailed {reason branch} :
      ResultOf state taskId (.workspaceFailed taskId reason) (.ensureTaskWorkspace taskId branch)
  | prepared {t kind outcome} : state.tasks[taskId]? = some t → leafKindOf t.phase = some kind →
      ResultOf state taskId (.taskLeafPrepared taskId outcome) (.prepareTaskLeaf taskId kind)
  | leaf {t kind outcome} : state.tasks[taskId]? = some t → leafKindOf t.phase = some kind →
      ResultOf state taskId (.taskLeaf taskId outcome) (.dispatchTask taskId kind)
  | committed {sha} : ResultOf state taskId (.taskCommitted taskId sha) (.commitTask taskId)
  | reviewPrepared {outcome} :
      ResultOf state taskId (.taskReviewPrepared taskId outcome) (.prepareTaskReview taskId)
  | review {outcome} :
      ResultOf state taskId (.taskReview taskId outcome) (.dispatchTask taskId .review)

/-- The command is a result of an outstanding effect on the task. -/
def ProcessorRuntime.Recovers (r : ProcessorRuntime) (taskId : String) (command : ProcessorCommand) :
    Prop :=
  ∃ (key : String) (effect : Effect), r.pending[key]? = some effect ∧
    ResultOf r.processor.state taskId command effect

namespace ProcessorPort

/-- The port answers a re-anchor with a re-anchor, and the inspection of a task with the result of
an outstanding effect on it. -/
def KeepsKeys (port : ProcessorPort ε) (r : ProcessorRuntime) : Effect → Prop
  | .reanchorPublication batchId =>
    ∀ head, port.reanchorPublication batchId r.processor.state ≠ .ok (.published head)
  | .reconcile taskId =>
    ∀ command, port.reconcile taskId r.processor.state = .ok (.command command) →
      r.Recovers taskId command
  | _ => True

end ProcessorPort

/-- The driver or the runtime refuses the key under which an effect is answered. A result that the
reducer itself rejects is another matter. -/
def DriveError.refusesKey : DriveError → Bool
  | .wrongAcknowledgement .. | .invalidResolution .. | .runtime (.unexpectedAcknowledgement ..)
  | .runtime (.pendingEffect _) | .runtime (.unknownEffect _) => true
  | .runtime _ => false

/-- `apply_resolution` accepts the answer: it passes the checks, and the runtime knows its key. -/
def Accepts (eventId : String → String) (r : ProcessorRuntime) (effect : Effect)
    (resolution : EffectResolution) (occurredAt : String) : Prop :=
  checkResolution r.processor effect resolution = .ok () ∧
    ∀ error, (applyResolution eventId r effect resolution occurredAt).2.2 = .error error →
      error.refusesKey = false

theorem ofRuntime_eq_ok {α : Type} {x : Ran α} {a : α} : ofRuntime x = .ok a ↔ x = .ok a := by
  cases x <;> simp [ofRuntime]

theorem fromPort_eq_ok {α : Type} {x : Except ε α} {a : α} : fromPort x = .ok a ↔ x = .ok a := by
  cases x <;> simp [fromPort]

theorem answer_eq_ok {α : Type} {make : α → ProcessorCommand} {x : Except ε α}
    {resolution : EffectResolution} :
    answer make x = .ok resolution ↔ ∃ a, x = .ok a ∧ resolution = .command (make a) := by
  simp only [answer, bind_eq_ok, fromPort_eq_ok, Except.ok.injEq]
  constructor
  · rintro ⟨a, ha, h⟩
    exact ⟨a, ha, h.symm⟩
  · rintro ⟨a, ha, h⟩
    exact ⟨a, ha, h.symm⟩

theorem done_eq_ok {x : Except ε Unit} {resolution : EffectResolution} :
    done x = .ok resolution ↔ x = .ok () ∧ resolution = .acknowledge := by
  simp only [done, bind_eq_ok, fromPort_eq_ok, Except.ok.injEq]
  constructor
  · rintro ⟨_, ha, h⟩
    exact ⟨ha, h.symm⟩
  · rintro ⟨ha, h⟩
    exact ⟨(), ha, h.symm⟩

variable {p : Processor} {effect : Effect} {resolution : EffectResolution}

/-- The executor hands on what the port made of the effect. -/
theorem execute_eq_ok {executor : NativeExecutor ε}
    (h : executor.execute effect p.state = .ok resolution) :
    executor.port.resolve p.state effect = .ok resolution := by
  unfold NativeExecutor.execute at h
  split at h
  · cases h
  · rw [bind_eq_ok] at h
    obtain ⟨resolution', hr, h⟩ := h
    split at h
    · cases h
    · obtain rfl : resolution' = resolution := Except.ok.inj h
      exact hr

/-- A command passes the driver exactly when its key is the one of the effect. -/
theorem checkCommand_iff {command : ProcessorCommand} :
    checkResolution p effect (.command command) = .ok () ↔
      acknowledgementKey p command = .ok (effectKey effect) := by
  simp only [checkResolution, ensureMatchingCommand, bind_eq_ok, ofRuntime_eq_ok]
  constructor
  · rintro ⟨actual, hactual, h⟩
    split at h
    · rename_i heq
      rw [heq, hactual]
    · cases h
  · intro h
    exact ⟨_, h, by simp⟩

theorem taskLeafKey_eq {tag taskId : String} {kind : LeafKind} {t : TaskRuntime}
    (ht : p.state.tasks[taskId]? = some t) (hk : leafKindOf t.phase = some kind) :
    taskLeafKey p tag taskId = .ok (some (tag ++ taskId ++ ":" ++ kind.asStr)) := by
  simp [taskLeafKey, Processor.taskMut, orError, ofProcessor, ht, hk, bind, Except.bind]

/-- A task dispatch is answered under the key of its leaf. -/
theorem dispatchTask_key {port : ProcessorPort ε} {taskId : String} {kind : LeafKind}
    (hco : p.Coherent (.dispatchTask taskId kind))
    (h : port.dispatchTaskLeaf p.state taskId kind = .ok resolution) :
    checkResolution p (.dispatchTask taskId kind) resolution = .ok () := by
  cases kind with
  | implement | fix =>
    obtain ⟨outcome, -, rfl⟩ := answer_eq_ok.1 h
    obtain ⟨t, ht, hk⟩ := hco.resolve_left (by simp)
    exact checkCommand_iff.2 (taskLeafKey_eq ht hk)
  | review =>
    obtain ⟨outcome, -, rfl⟩ := answer_eq_ok.1 h
    refine checkCommand_iff.2 ?_
    simp [acknowledgementKey, effectKey, LeafKind.asStr, String.append_assoc]
  | _ => cases h

/-- An integration dispatch is answered under the key of its leaf. -/
theorem dispatchIntegration_key {port : ProcessorPort ε} {kind : LeafKind}
    (h : port.dispatchIntegrationLeaf p.state kind = .ok resolution) :
    checkResolution p (.dispatchIntegration kind) resolution = .ok () := by
  cases kind with
  | merger =>
    simp only [ProcessorPort.dispatchIntegrationLeaf] at h
    split at h
    · cases h
    · obtain ⟨outcome, -, rfl⟩ := answer_eq_ok.1 h
      exact checkCommand_iff.2 rfl
  | integrationReview | integrationFix | ciFix | knowledgeCurator =>
    obtain ⟨outcome, -, rfl⟩ := answer_eq_ok.1 h
    exact checkCommand_iff.2 rfl
  | _ => cases h

theorem publication_key {batchId : String} {result : PublicationResult} :
    checkResolution p (.publish batchId) (.command (ProcessorPort.publicationCommand result)) =
      .ok () := by
  cases result <;> exact checkCommand_iff.2 rfl

/-- A publication found while re-anchoring is reported under the key of `Publish`. -/
theorem reanchor_key {batchId : String} {result : PublicationReanchorResult} :
    checkResolution p (.reanchorPublication batchId)
        (.command (ProcessorPort.reanchorCommand result)) = .ok () ↔
      ∀ head, result ≠ .published head := by
  rw [checkCommand_iff]
  cases result with
  | reanchored => simp [ProcessorPort.reanchorCommand, acknowledgementKey, effectKey]
  | published head => simp [ProcessorPort.reanchorCommand, acknowledgementKey, effectKey]

theorem reconciled_key {taskId : String} {command : ProcessorCommand} :
    checkResolution p (.reconcile taskId) (.reconciled command) = .ok () ↔
      (∃ key, acknowledgementKey p command = .ok (some key)) ∧
        reconciliationMatchesTask (.reconcile taskId) command = true := by
  simp only [checkResolution, bind_eq_ok, ofRuntime_eq_ok]
  constructor
  · rintro ⟨key, hkey, h⟩
    split at h
    · cases h
    · rename_i hsome
      split at h
      · rename_i hmatch
        obtain ⟨key, rfl⟩ := Option.ne_none_iff_exists'.1 (by simpa using hsome)
        exact ⟨⟨key, hkey⟩, hmatch⟩
      · cases h
  · rintro ⟨⟨key, hkey⟩, hmatch⟩
    exact ⟨some key, hkey, by simp [hmatch]⟩

theorem acknowledge_key (h : acknowledgementOnlyEffect effect = true) :
    checkResolution p effect .acknowledge = .ok () := by
  cases effect <;> first | rfl | cases h

/-- **The tables agree effect by effect**, unless the port answers a re-anchor with a publication;
a reconciliation is answered under the key of another effect. -/
theorem checkResolution_iff {r : ProcessorRuntime} (executor : NativeExecutor ε)
    (hkey : (effectKey effect).isSome = true) (hco : r.processor.Coherent effect)
    (hrec : ∀ taskId, effect ≠ .reconcile taskId)
    (h : executor.execute effect r.processor.state = .ok resolution) :
    checkResolution r.processor effect resolution = .ok () ↔ executor.port.KeepsKeys r effect := by
  have hport := execute_eq_ok h
  clear h
  cases effect with
  | persistCheckpoint | waitForOperator => cases hkey
  | reconcile taskId => exact absurd rfl (hrec taskId)
  | reanchorPublication batchId =>
    obtain ⟨result, hresult, rfl⟩ := answer_eq_ok.1 hport
    rw [reanchor_key]
    refine ⟨fun hne head hhead => ?_, fun hk head hhead => hk head (hhead ▸ hresult)⟩
    rw [hresult] at hhead
    exact hne head (Except.ok.inj hhead)
  | planNextWave freeSlots =>
    simp only [ProcessorPort.resolve, bind_eq_ok] at hport
    obtain ⟨candidates, -, h⟩ := hport
    obtain ⟨now, -, rfl⟩ := answer_eq_ok.1 h
    exact ⟨fun _ => trivial, fun _ => checkCommand_iff.2 rfl⟩
  | checkTokenBudget next =>
    refine ⟨fun _ => trivial, fun _ => ?_⟩
    simp only [ProcessorPort.resolve] at hport
    split at hport <;> (obtain rfl := Except.ok.inj hport; exact checkCommand_iff.2 rfl)
  | ensureTaskWorkspace taskId branch =>
    refine ⟨fun _ => trivial, fun _ => ?_⟩
    simp only [ProcessorPort.resolve] at hport
    split at hport <;> (obtain rfl := Except.ok.inj hport; exact checkCommand_iff.2 rfl)
  | prepareTaskLeaf taskId kind =>
    obtain ⟨outcome, -, rfl⟩ := answer_eq_ok.1 hport
    obtain ⟨t, ht, hk⟩ := hco
    exact ⟨fun _ => trivial, fun _ => checkCommand_iff.2 (taskLeafKey_eq ht hk)⟩
  | dispatchTask taskId kind =>
    exact ⟨fun _ => trivial, fun _ => dispatchTask_key hco hport⟩
  | dispatchIntegration kind =>
    exact ⟨fun _ => trivial, fun _ => dispatchIntegration_key hport⟩
  | publish batchId =>
    obtain ⟨result, -, rfl⟩ := answer_eq_ok.1 hport
    exact ⟨fun _ => trivial, fun _ => publication_key⟩
  | notify | returnTask | escalateTask | archiveTask | cleanupTaskWorkspace
  | cleanupIntegrationWorkspace | cleanupCohortControlPlane | writeJournalAndStatus
  | releaseLease =>
    obtain ⟨-, rfl⟩ := done_eq_ok.1 hport
    exact ⟨fun _ => trivial, fun _ => acknowledge_key rfl⟩
  | _ =>
    obtain ⟨a, -, rfl⟩ := answer_eq_ok.1 hport
    exact ⟨fun _ => trivial, fun _ => checkCommand_iff.2 rfl⟩

/-! ## What the runtime refuses -/

theorem enterEffects_error {effects : List Effect} {pending : StringMap Effect} {error : RuntimeError}
    (h : enterEffects effects pending = .error error) :
    (DriveError.runtime error).refusesKey = false := by
  induction effects generalizing pending with
  | nil => cases h
  | cons effect effects ih =>
    simp only [enterEffects] at h
    split at h
    · exact ih h
    · split at h
      · split at h
        · exact ih h
        · cases h
          rfl
      · exact ih h

theorem appendAll_error {events outbox : List Event} {error : RuntimeError}
    (h : appendAll outbox events = .error error) : (DriveError.runtime error).refusesKey = false := by
  induction events generalizing outbox with
  | nil => cases h
  | cons event events ih =>
    simp only [appendAll] at h
    cases hx : appendIdempotent outbox event with
    | ok outbox' =>
      rw [hx] at h
      exact ih h
    | error error' =>
      rw [hx] at h
      obtain rfl : error' = error := Except.error.inj h
      unfold appendIdempotent at hx
      split at hx
      · split at hx
        · cases hx
        · cases hx
          rfl
      · cases hx

section Runtime

variable {eventId : String → String} {r : ProcessorRuntime} {command : ProcessorCommand}
  {key now : String}

/-- The key of an outstanding effect is not refused, whatever else is. -/
theorem applyAt_outstanding {error : RuntimeError}
    (hack : acknowledgementKey r.processor command = .ok (some key)) (hkey : key ∈ r.pending)
    (h : r.applyAt eventId command now = .error error) :
    (DriveError.runtime error).refusesKey = false := by
  unfold ProcessorRuntime.applyAt at h
  cases ht : r.transition eventId command now with
  | ok t =>
    simp only [ht, bind, Except.bind] at h
    cases ho : appendAll r.outbox t.events with
    | ok outbox => simp [ho] at h
    | error error' =>
      simp only [ho, Except.error.injEq] at h
      exact h ▸ appendAll_error ho
  | error error' =>
    simp only [ht, bind, Except.bind, Except.error.injEq] at h
    subst h
    unfold ProcessorRuntime.transition at ht
    split at ht
    · cases ht
      rfl
    · simp only [hack, ProcessorRuntime.checkAcknowledgement, hkey, if_true, bind, Except.bind] at ht
      cases hp : r.processor.apply command with
      | error error =>
        simp only [hp, ofProcessor, Except.error.injEq] at ht
        exact ht ▸ rfl
      | ok x =>
        simp only [hp, ofProcessor] at ht
        cases he : enterEffects x.2 (r.answered (some key)) with
        | ok pending => simp [he] at ht
        | error error =>
          simp only [he, Except.error.injEq] at ht
          exact ht ▸ enterEffects_error he

/-- A key that is not outstanding is refused. -/
theorem applyAt_unexpected (hnow : isIsoUtc now = true)
    (hack : acknowledgementKey r.processor command = .ok (some key)) (hkey : key ∉ r.pending) :
    ∃ error, r.applyAt eventId command now = .error error ∧
      (DriveError.runtime error).refusesKey = true := by
  refine ⟨.unexpectedAcknowledgement
    ((r.pending.toList.map Prod.fst).head?.getD "no outstanding effect") key, ?_, rfl⟩
  simp [ProcessorRuntime.applyAt, ProcessorRuntime.transition, hnow, hack,
    ProcessorRuntime.checkAcknowledgement, hkey, bind, Except.bind]

/-- An outstanding effect is acknowledged, or the reducer rejects it. -/
theorem acknowledgeEffect_outstanding {error : RuntimeError} (hk : effectKey effect = some key)
    (hkey : key ∈ r.pending) (h : r.acknowledgeEffect effect = .error error) :
    (DriveError.runtime error).refusesKey = false := by
  obtain ⟨entry, hentry⟩ := Option.isSome_iff_exists.1 (ExtTreeMap.mem_iff_isSome_getElem?.1 hkey)
  simp only [ProcessorRuntime.acknowledgeEffect, hk, ProcessorRuntime.completeEffect, hentry] at h
  cases hp : r.processor.acknowledgeNonCommandEffect entry with
  | ok p => simp [hp, ofProcessor, bind, Except.bind] at h
  | error error' =>
    simp only [hp, ofProcessor, bind, Except.bind, Except.error.injEq] at h
    exact h ▸ rfl

section Applied

variable {error : DriveError}

/-- A checked command fails where the runtime does. -/
theorem applyResolution_command (hcheck : checkResolution r.processor effect (.command command) = .ok ()) :
    (applyResolution eventId r effect (.command command) now).2.2 = .error error ↔
      ∃ e, r.applyAt eventId command now = .error e ∧ error = .runtime e := by
  unfold applyResolution
  generalize checkResolution r.processor effect (.command command) = checked at hcheck
  subst hcheck
  dsimp only
  cases r.applyAt eventId command now with
  | ok x => simp
  | error e => simp [eq_comm]

theorem applyResolution_acknowledge (hcheck : checkResolution r.processor effect .acknowledge = .ok ()) :
    (applyResolution eventId r effect .acknowledge now).2.2 = .error error ↔
      ∃ e, r.acknowledgeEffect effect = .error e ∧ error = .runtime e := by
  unfold applyResolution
  generalize checkResolution r.processor effect .acknowledge = checked at hcheck
  subst hcheck
  dsimp only
  cases r.acknowledgeEffect effect with
  | ok s => simp
  | error e => simp [eq_comm]

/-- The command of an inspection fails where the runtime does, or at the end of the inspection. -/
theorem applyResolution_reconciled
    (hcheck : checkResolution r.processor effect (.reconciled command) = .ok ()) :
    (applyResolution eventId r effect (.reconciled command) now).2.2 = .error error ↔
      (∃ e, r.applyAt eventId command now = .error e ∧ error = .runtime e) ∨
        ∃ s effects e, r.applyAt eventId command now = .ok (s, effects) ∧
          s.acknowledgeEffect effect = .error e ∧ error = .runtime e := by
  unfold applyResolution
  generalize checkResolution r.processor effect (.reconciled command) = checked at hcheck
  subst hcheck
  dsimp only
  cases r.applyAt eventId command now with
  | error e => simp [eq_comm]
  | ok x =>
    obtain ⟨s, effects⟩ := x
    dsimp only
    cases hs : s.acknowledgeEffect effect with
    | ok s' => simp [hs]
    | error e => simp [hs, eq_comm]

end Applied

/-- **What passes the checks of the driver is not refused by the runtime**, unless it is the command
of an inspection. -/
theorem accepts_of_check (hk : effectKey effect = some key) (hkey : key ∈ r.pending)
    (hrec : ∀ command, resolution ≠ .reconciled command)
    (hcheck : checkResolution r.processor effect resolution = .ok ()) :
    Accepts eventId r effect resolution now := by
  refine ⟨hcheck, fun error herror => ?_⟩
  cases resolution with
  | command command =>
    have hack := (checkCommand_iff.1 hcheck).trans (congrArg _ hk)
    obtain ⟨e, ha, rfl⟩ := (applyResolution_command hcheck).1 herror
    exact applyAt_outstanding hack hkey ha
  | reconciled command => exact absurd rfl (hrec command)
  | acknowledge =>
    obtain ⟨e, ha, rfl⟩ := (applyResolution_acknowledge hcheck).1 herror
    exact acknowledgeEffect_outstanding hk hkey ha
  | hold reason => cases herror

end Runtime

/-! ## Inspections -/

theorem asStr_inj {kind kind' : LeafKind} (h : kind.asStr = kind'.asStr) : kind = kind' := by
  cases kind <;> cases kind' <;> first | rfl | exact absurd h (by decide)

/-- The name of a kind has no colon, so what stands in front of the last colon is another part. -/
theorem takeWhile_kind (kind : LeafKind) (front : List Char) :
    (kind.asStr.toList.reverse ++ ':' :: front).takeWhile (· ≠ ':') = kind.asStr.toList.reverse := by
  have hcolon : ':' ∉ kind.asStr.toList := by cases kind <;> simp [LeafKind.asStr]
  have hfree : ∀ c ∈ kind.asStr.toList.reverse, (decide (c ≠ ':')) = true := fun c hc =>
    decide_eq_true fun heq => hcolon (heq ▸ List.mem_reverse.1 hc)
  rw [List.takeWhile_append_of_pos hfree]
  simp

/-- **The key of a leaf names its task and its kind.** -/
theorem leafKey_inj {tag taskId taskId' : String} {kind kind' : LeafKind}
    (h : tag ++ taskId ++ ":" ++ kind.asStr = tag ++ taskId' ++ ":" ++ kind'.asStr) :
    taskId = taskId' ∧ kind = kind' := by
  have hlast := congrArg (fun s => s.toList.reverse.takeWhile (· ≠ ':')) h
  simp only [String.toList_append, List.reverse_append, List.append_assoc] at hlast
  rw [show ":".toList.reverse = [':'] from rfl, List.singleton_append, List.singleton_append,
    takeWhile_kind, takeWhile_kind, List.reverse_inj, String.toList_inj] at hlast
  obtain rfl := asStr_inj hlast
  refine ⟨?_, rfl⟩
  rwa [String.append_left_inj, String.append_left_inj, String.append_right_inj] at h

section Shapes

variable {e : Effect} {taskId : String} {kind : LeafKind}

theorem ensureTaskWorkspace_of_key (h : effectKey e = some ("ensure-workspace:" ++ taskId)) :
    ∃ branch, e = .ensureTaskWorkspace taskId branch := by
  have htag : e.tag = "ensure-workspace" :=
    tag_of_key h ((headOf_append (by decide) taskId).trans (by decide))
  cases e <;> first | (simp [Effect.tag] at htag; done) | skip
  have := Option.some.inj h
  rw [String.append_right_inj] at this
  exact ⟨_, by rw [this]⟩

theorem commitTask_of_key (h : effectKey e = some ("commit-task:" ++ taskId)) :
    e = .commitTask taskId := by
  have htag : e.tag = "commit-task" :=
    tag_of_key h ((headOf_append (by decide) taskId).trans (by decide))
  cases e <;> first | (simp [Effect.tag] at htag; done) | skip
  have := Option.some.inj h
  rw [String.append_right_inj] at this
  rw [this]

theorem prepareTaskReview_of_key (h : effectKey e = some ("prepare-task-review:" ++ taskId)) :
    e = .prepareTaskReview taskId := by
  have htag : e.tag = "prepare-task-review" :=
    tag_of_key h ((headOf_append (by decide) taskId).trans (by decide))
  cases e <;> first | (simp [Effect.tag] at htag; done) | skip
  have := Option.some.inj h
  rw [String.append_right_inj] at this
  rw [this]

theorem prepareTaskLeaf_of_key
    (h : effectKey e = some ("prepare-task-leaf:" ++ taskId ++ ":" ++ kind.asStr)) :
    e = .prepareTaskLeaf taskId kind := by
  have htag : e.tag = "prepare-task-leaf" := by
    rw [String.append_assoc, String.append_assoc] at h
    exact tag_of_key h ((headOf_append (by decide) _).trans (by decide))
  cases e <;> first | (simp [Effect.tag] at htag; done) | skip
  obtain ⟨rfl, rfl⟩ := leafKey_inj (Option.some.inj h)
  rfl

theorem dispatchTask_of_key
    (h : effectKey e = some ("dispatch-task:" ++ taskId ++ ":" ++ kind.asStr)) :
    e = .dispatchTask taskId kind := by
  have htag : e.tag = "dispatch-task" := by
    rw [String.append_assoc, String.append_assoc] at h
    exact tag_of_key h ((headOf_append (by decide) _).trans (by decide))
  cases e <;> first | (simp [Effect.tag] at htag; done) | skip
  obtain ⟨rfl, rfl⟩ := leafKey_inj (Option.some.inj h)
  rfl

end Shapes

section Inspection

variable {eventId : String → String} {r : ProcessorRuntime} {command : ProcessorCommand}
  {taskId key now : String}

/-- A result of an effect is reported under its key. -/
theorem ResultOf.reported (h : ResultOf p.state taskId command effect) :
    acknowledgementKey p command = .ok (effectKey effect) ∧
      reconciliationMatchesTask (.reconcile taskId) command = true := by
  cases h with
  | prepared ht hk => exact ⟨taskLeafKey_eq ht hk, by simp [reconciliationMatchesTask]⟩
  | leaf ht hk => exact ⟨taskLeafKey_eq ht hk, by simp [reconciliationMatchesTask]⟩
  | review =>
    exact ⟨by simp [acknowledgementKey, effectKey, LeafKind.asStr, String.append_assoc],
      by simp [reconciliationMatchesTask]⟩
  | _ => exact ⟨rfl, by simp [reconciliationMatchesTask]⟩

/-- A command of the task that is reported under the key of an effect is a result of it. -/
theorem resultOf_of_key (hmatch : reconciliationMatchesTask (.reconcile taskId) command = true)
    (hack : acknowledgementKey p command = .ok (some key)) (hkey : effectKey effect = some key) :
    ResultOf p.state taskId command effect := by
  cases command with
  | workspaceReady candidate | workspaceFailed candidate =>
    obtain rfl : candidate = taskId := by simpa [reconciliationMatchesTask] using hmatch
    obtain rfl := Option.some.inj (Except.ok.inj hack)
    obtain ⟨branch, rfl⟩ := ensureTaskWorkspace_of_key hkey
    constructor
  | taskLeafPrepared candidate =>
    obtain rfl : candidate = taskId := by simpa [reconciliationMatchesTask] using hmatch
    obtain ⟨t, kind, ht, hk, rfl⟩ := taskLeafKey_ok hack
    obtain rfl := prepareTaskLeaf_of_key hkey
    exact .prepared ht hk
  | taskLeaf candidate =>
    obtain rfl : candidate = taskId := by simpa [reconciliationMatchesTask] using hmatch
    obtain ⟨t, kind, ht, hk, rfl⟩ := taskLeafKey_ok hack
    obtain rfl := dispatchTask_of_key hkey
    exact .leaf ht hk
  | taskCommitted candidate =>
    obtain rfl : candidate = taskId := by simpa [reconciliationMatchesTask] using hmatch
    obtain rfl := Option.some.inj (Except.ok.inj hack)
    obtain rfl := commitTask_of_key hkey
    constructor
  | taskReviewPrepared candidate =>
    obtain rfl : candidate = taskId := by simpa [reconciliationMatchesTask] using hmatch
    obtain rfl := Option.some.inj (Except.ok.inj hack)
    obtain rfl := prepareTaskReview_of_key hkey
    constructor
  | taskReview candidate =>
    obtain rfl : candidate = taskId := by simpa [reconciliationMatchesTask] using hmatch
    obtain rfl := Option.some.inj (Except.ok.inj hack)
    have hreview : effectKey effect =
        some ("dispatch-task:" ++ candidate ++ ":" ++ LeafKind.review.asStr) := by
      simpa [LeafKind.asStr, String.append_assoc] using hkey
    obtain rfl := dispatchTask_of_key hreview
    constructor
  | _ => cases hmatch

/-- The key of a result is not the key of an inspection. -/
theorem ResultOf.key_ne_reconcile (h : ResultOf p.state taskId command effect)
    (hkey : effectKey effect = some key) (id : String) : key ≠ "reconcile:" ++ id := by
  rintro rfl
  have htag : effect.tag = "reconcile" :=
    tag_of_key hkey ((headOf_append (by decide) id).trans (by decide))
  cases h <;> simp [Effect.tag] at htag

/-- **The command of an inspection is accepted** exactly when it is the result of an outstanding
effect on the task. -/
theorem accepts_reconciled (hfiled : r.Filed) (hnow : isIsoUtc now = true)
    (hpending : "reconcile:" ++ taskId ∈ r.pending) :
    Accepts eventId r (.reconcile taskId) (.reconciled command) now ↔ r.Recovers taskId command := by
  constructor
  · rintro ⟨hcheck, hkeyed⟩
    obtain ⟨⟨key, hack⟩, hmatch⟩ := reconciled_key.1 hcheck
    by_cases hkey : key ∈ r.pending
    · obtain ⟨e, he⟩ := Option.isSome_iff_exists.1 (ExtTreeMap.mem_iff_isSome_getElem?.1 hkey)
      exact ⟨key, e, he, resultOf_of_key hmatch hack (hfiled key e he)⟩
    · obtain ⟨error, happly, hrefused⟩ := applyAt_unexpected hnow hack hkey
      have hfree := hkeyed (.runtime error) ((applyResolution_reconciled hcheck).2 (.inl ⟨error, happly, rfl⟩))
      rw [hrefused] at hfree
      cases hfree
  · rintro ⟨key, e, he, hresult⟩
    have hkey : effectKey e = some key := hfiled key e he
    have hmem : key ∈ r.pending := by rw [ExtTreeMap.mem_iff_isSome_getElem?, he]; rfl
    obtain ⟨hack, hmatch⟩ := hresult.reported
    rw [hkey] at hack
    have hcheck := reconciled_key.2 ⟨⟨key, hack⟩, hmatch⟩
    refine ⟨hcheck, fun error herror => ?_⟩
    rcases (applyResolution_reconciled hcheck).1 herror with
      ⟨e', ha, rfl⟩ | ⟨s, effects, e', ha, hend, rfl⟩
    · exact applyAt_outstanding hack hmem ha
    · -- the inspection is still outstanding behind the command it found
      have hstill : "reconcile:" ++ taskId ∈ s.pending := by
        obtain ⟨t, ht, -, -, hpend, -⟩ := ProcessorRuntime.applyAt_spec ha
        obtain ⟨ack, hack', -, -, henter, -⟩ := ProcessorRuntime.transition_spec ht
        obtain rfl := Except.ok.inj (hack.symm.trans hack')
        rw [hpend]
        refine enterEffects_keeps henter (ExtTreeMap.mem_erase.2 ⟨?_, hpending⟩)
        simpa using hresult.key_ne_reconcile hkey taskId
      exact acknowledgeEffect_outstanding rfl hstill hend

end Inspection

/-- **Every pending effect is answered under its own key**, along every run: the driver and the
runtime accept the answer, if and only if the port answered a re-anchor with a re-anchor, and an
inspection with the result of an outstanding effect on its task. -/
theorem own_key {eventId : String → String} {config : ProcessorConfig} {r0 r : ProcessorRuntime}
    {key now : String} (hnew : ProcessorRuntime.new config = .ok r0)
    (hrun : Reach (ProcessorRuntime.next eventId) (fun _ _ => True) r0 r)
    (hpending : r.pending[key]? = some effect) (hco : r.processor.Coherent effect)
    (hnow : isIsoUtc now = true) (executor : NativeExecutor ε)
    (h : executor.execute effect r.processor.state = .ok resolution) :
    Accepts eventId r effect resolution now ↔ executor.port.KeepsKeys r effect := by
  have hfiled := ProcessorRuntime.filed_of_reach hnew hrun
  have hkey : effectKey effect = some key := hfiled key effect hpending
  have hmem : key ∈ r.pending := by rw [ExtTreeMap.mem_iff_isSome_getElem?, hpending]; rfl
  by_cases hrec : ∃ taskId, effect = .reconcile taskId
  · obtain ⟨taskId, rfl⟩ := hrec
    obtain rfl := Option.some.inj hkey
    have hport := execute_eq_ok h
    simp only [ProcessorPort.resolve, bind_eq_ok, fromPort_eq_ok] at hport
    obtain ⟨reconciliation, hfound, hport⟩ := hport
    cases reconciliation with
    | command command =>
      obtain rfl : .reconciled command = resolution := by simpa using hport
      rw [accepts_reconciled hfiled hnow hmem]
      refine ⟨fun hr c hc => ?_, fun hk => hk _ hfound⟩
      rw [hfound] at hc
      cases hc
      exact hr
    | hold reason =>
      obtain rfl : .hold reason = resolution := by simpa using hport
      refine ⟨fun _ c hc => ?_, fun _ => ⟨rfl, fun error herror => by cases herror⟩⟩
      rw [hfound] at hc
      cases hc
  · have hrec' : ∀ taskId, effect ≠ .reconcile taskId := fun taskId heq => hrec ⟨taskId, heq⟩
    rw [← checkResolution_iff executor (by simp [hkey]) hco hrec' h]
    refine ⟨And.left, fun hcheck => accepts_of_check hkey hmem ?_ hcheck⟩
    rintro command rfl
    cases effect <;> first | cases hcheck | exact hrec' _ rfl

section Sample

/-- A port none of whose services answers. -/
def deadPort : ProcessorPort String where
  errorText := id
  nowSecs := .error "down"
  reconcile _ _ := .error "down"
  reconcileInbox _ := .error "down"
  reconcileInboxFinalization _ := .error "down"
  refreshDependencyGraph _ _ := .error "down"
  curateInbox _ _ := .error "down"
  drainQueueInbox _ := .error "down"
  planCandidates _ _ := .error "down"
  tokenBudgetObservation _ := .error "down"
  ensureTaskWorkspace _ _ _ := .error "down"
  taskLeaf _ _ _ := .error "down"
  prepareTaskLeaf _ _ _ := .error "down"
  prepareTaskReview _ _ := .error "down"
  taskReview _ _ := .error "down"
  commitTask _ _ := .error "down"
  ensureIntegrationWorkspace _ _ := .error "down"
  mergeTask _ _ := .error "down"
  resolveMergeConflict _ _ := .error "down"
  finalizeMergeResolution _ _ := .error "down"
  abortMergeResolution _ _ := .error "down"
  verifyIntegration _ _ := .error "down"
  integrationReview _ := .error "down"
  integrationFix _ := .error "down"
  commitIntegrationFix _ := .error "down"
  publish _ _ := .error "down"
  reanchorPublication _ _ := .error "down"
  verifyCi _ _ := .error "down"
  reconfirmCiBeforeArchive _ _ _ := .error "down"
  notify _ _ := .error "down"
  prepareCiFix _ := .error "down"
  ciFix _ := .error "down"
  commitCiFix _ := .error "down"
  prepareKnowledgeCuration _ := .error "down"
  prepareArchival _ := .error "down"
  curateKnowledge _ := .error "down"
  returnTask _ _ _ := .error "down"
  escalateTask _ _ _ := .error "down"
  archiveTask _ _ := .error "down"
  cleanupTaskWorkspace _ _ := .error "down"
  cleanupIntegrationWorkspace _ := .error "down"
  cleanupCohortControlPlane _ := .error "down"
  writeJournalAndStatus _ := .error "down"
  releaseLease := .error "down"

/-- A re-anchor that finds the batch published already. -/
def republished : NativeExecutor String :=
  { port := { deadPort with reanchorPublication := fun _ _ => .ok (.published "m2") } }

/-- An inspection that finds the given operation done. -/
def inspected (command : ProcessorCommand) : NativeExecutor String :=
  { port := { deadPort with reconcile := fun _ _ => .ok (.command command) } }

/-- A restart while the workspace of the first task is being made. -/
def interrupted : List RuntimeStep :=
  ProcessorRuntime.admitted [Processor.proposal "T-1" "a/**"] ++ [.resume] ++
    ProcessorRuntime.applied [.recover ((∅ : StringSet).insert "T-1")]

end Sample


/-- A restart finds the workspace of `T-1` made, or its work committed: the first is the result of an
outstanding effect and accepted, the second is refused. -/
theorem own_key_inspected : ∃ r : ProcessorRuntime,
    r.pending["reconcile:T-1"]? = some (.reconcile "T-1") ∧
      Accepts id r (.reconcile "T-1") (.reconciled (.workspaceReady "T-1")) "2026-07-24T12:00:00Z" ∧
      ¬Accepts id r (.reconcile "T-1") (.reconciled (.taskCommitted "T-1" "c1"))
        "2026-07-24T12:00:00Z" := by
  have hrun : (exec (guarded (fun _ _ => true) (ProcessorRuntime.next id))
      ProcessorRuntime.freshRuntime interrupted).any
      (fun r => decide (r.pending["reconcile:T-1"]? = some (.reconcile "T-1") ∧
        r.pending["ensure-workspace:T-1"]? = some (.ensureTaskWorkspace "T-1" "task/T-1") ∧
        r.pending["commit-task:T-1"]? = none)) = true := by decide +kernel
  obtain ⟨r, hreach, hp⟩ := exec_any hrun
  obtain ⟨hreconcile, hensure, hcommit⟩ := of_decide_eq_true hp
  have hreach' : Reach (ProcessorRuntime.next id) (fun _ _ => True) ProcessorRuntime.freshRuntime r :=
    hreach.mono fun _ _ _ => trivial
  have hnew : ProcessorRuntime.new {} = .ok ProcessorRuntime.freshRuntime := rfl
  refine ⟨r, hreconcile, ?_, fun haccepted => ?_⟩
  · refine (own_key hnew hreach' hreconcile trivial (by decide)
      (inspected (.workspaceReady "T-1")) rfl).2 fun command hc => ?_
    cases hc
    exact ⟨_, _, hensure, .workspaceReady⟩
  · obtain ⟨key, e, he, hresult⟩ := (own_key hnew hreach' hreconcile trivial (by decide)
      (inspected (.taskCommitted "T-1" "c1")) rfl).1 haccepted _ rfl
    have hkey := ProcessorRuntime.filed_of_reach hnew hreach' key e he
    cases hresult
    obtain rfl := Option.some.inj hkey
    rw [show "commit-task:" ++ "T-1" = "commit-task:T-1" from rfl, hcommit] at he
    cases he

/-- **A publication found while re-anchoring is refused**, in a reached state whose ledger holds the
re-anchor. -/
theorem own_key_broken :
    ¬∀ (config : ProcessorConfig) (r0 r : ProcessorRuntime) (executor : NativeExecutor String)
        (key now : String) (effect : Effect) (resolution : EffectResolution),
      ProcessorRuntime.new config = .ok r0 →
      Reach (ProcessorRuntime.next id) (fun _ _ => True) r0 r → r.pending[key]? = some effect →
      r.processor.Coherent effect → isIsoUtc now = true →
      executor.execute effect r.processor.state = .ok resolution →
      Accepts id r effect resolution now := by
  intro hall
  have hrun : (exec (guarded (fun _ _ => true) (ProcessorRuntime.next id))
      ProcessorRuntime.freshRuntime
      (ProcessorRuntime.verified ++
        ProcessorRuntime.applied [.publicationReanchorRequired "moved" .remotePublication])).any
      (fun r => decide (r.pending["reanchor-publication"]? = some (.reanchorPublication "B-1"))) =
        true := by decide +kernel
  obtain ⟨r, hreach, hp⟩ := exec_any hrun
  have haccepted := hall {} _ r republished _ "2026-07-24T12:00:00Z" _
    (.command (.published "m2" true)) rfl (hreach.mono fun _ _ _ => trivial) (of_decide_eq_true hp)
    trivial (by decide) rfl
  have hne := checkCommand_iff.1 haccepted.1
  simp [acknowledgementKey, effectKey] at hne

end Orchestrail
