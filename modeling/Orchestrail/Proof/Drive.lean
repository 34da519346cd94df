import Orchestrail.Proof.Answers
import Orchestrail.Proof.Outstanding

/-!
# What a drive leaves behind

A drive only applies commands and acknowledges effects, so it is a run of the runtime. Every effect
it was given, or the reducer asked for on the way, is at the end either completed or unanswered, and
once. What is still outstanding then belongs to an unanswered effect, or was none of its business.
-/

namespace Orchestrail

open Std Table Steps

namespace ProcessorRuntime

variable {eventId : String → String} {r s t : ProcessorRuntime}
  {tr tr' : List (ProcessorRuntime × RuntimeStep)} {key : String} {e : Effect}

/-! ## What a run asks for and acknowledges -/

/-- The effects of a step. -/
def stepEffects (r : ProcessorRuntime) : RuntimeStep → List Effect
  | .apply command _ =>
    match r.processor.apply command with
    | .ok (_, effects) => effects
    | .error _ => []
  | _ => []

/-- The key a step acknowledges. -/
def stepKey (r : ProcessorRuntime) : RuntimeStep → Option String
  | .apply command _ =>
    match acknowledgementKey r.processor command with
    | .ok key => key
    | .error _ => none
  | .complete key => some key
  | _ => none

def asked (tr : List (ProcessorRuntime × RuntimeStep)) : List Effect :=
  tr.flatMap fun x => x.1.stepEffects x.2

def acknowledged (tr : List (ProcessorRuntime × RuntimeStep)) : List String :=
  tr.filterMap fun x => x.1.stepKey x.2

@[simp] theorem asked_append : asked (tr ++ tr') = asked tr ++ asked tr' :=
  List.flatMap_append

@[simp] theorem acknowledged_append :
    acknowledged (tr ++ tr') = acknowledged tr ++ acknowledged tr' :=
  List.filterMap_append

theorem step_pending {step : RuntimeStep} (h : r.next eventId step = some s)
    (he : s.pending[key]? = some e) :
    (∃ x ∈ r.stepEffects step, effectKey x = some key) ∨
      r.pending[key]? = some e ∧ r.stepKey step ≠ some key := by
  rcases next_pending h he with ⟨hold, hnot⟩ | ⟨cmd, now, effects, rfl, happly, hmem, hkey⟩
  · refine .inr ⟨hold, fun hack => ?_⟩
    cases step with
    | apply cmd now =>
      refine hnot cmd now rfl ?_
      simp only [stepKey] at hack
      split at hack
      case h_1 key' hkey => rw [hkey, hack]
      case h_2 => cases hack
    | complete k =>
      obtain ⟨_, -, -, hpend, -⟩ := next_complete h
      obtain rfl := Option.some.inj hack
      rw [hpend] at he
      simp at he
    | appendOnly | supersede | resume => cases hack
  · exact .inl ⟨e, by simpa [stepEffects, happly] using hmem, hkey⟩

/-- **What a run leaves in the ledger** it asked for, or found there and did not acknowledge. -/
theorem run_pending (h : Run (next eventId) r tr s) (he : s.pending[key]? = some e) :
    (∃ x ∈ asked tr, effectKey x = some key) ∨
      r.pending[key]? = some e ∧ key ∉ acknowledged tr := by
  induction h with
  | nil => exact .inr ⟨he, List.not_mem_nil⟩
  | @snoc tr u step v _ hn ih =>
    rw [asked_append, acknowledged_append]
    rcases step_pending hn he with ⟨x, hx, hkey⟩ | ⟨hold, hnot⟩
    · exact .inl ⟨x, List.mem_append_right _ (by simpa [asked] using hx), hkey⟩
    · rcases ih hold with ⟨x, hx, hkey⟩ | ⟨hfound, hack⟩
      · exact .inl ⟨x, List.mem_append_left _ hx, hkey⟩
      · refine .inr ⟨hfound, fun hmem => ?_⟩
        rcases List.mem_append.1 hmem with hmem | hmem
        · exact hack hmem
        · exact hnot (by simpa [acknowledged] using hmem)

theorem run_applyAt {cmd : ProcessorCommand} {now : String} {effects : List Effect}
    (h : r.applyAt eventId cmd now = .ok (s, effects)) :
    Run (next eventId) r [(r, .apply cmd now)] s ∧ asked [(r, .apply cmd now)] = effects := by
  refine ⟨.snoc .nil (by simp [next, h, Except.toOption]), ?_⟩
  obtain ⟨t, ht, -, -, -, rfl⟩ := applyAt_spec h
  obtain ⟨ack, -, -, happly, -⟩ := transition_spec ht
  simp [asked, stepEffects, happly]

theorem run_acknowledgeEffect (eventId : String → String) {effect : Effect}
    (h : r.acknowledgeEffect effect = .ok s) :
    ∃ key, effectKey effect = some key ∧ Run (next eventId) r [(r, .complete key)] s := by
  unfold acknowledgeEffect at h
  split at h
  case h_1 => cases h
  case h_2 key hkey => exact ⟨key, hkey, .snoc .nil (by simp [next, h, Except.toOption])⟩

end ProcessorRuntime

open ProcessorRuntime

variable {σ ε : Type} {eventId : String → String} {executor : EffectExecutor σ ε}
  {r s t : ProcessorRuntime} {initial completed unanswered rest : List Effect} {effect : Effect}
  {tr tr' : List (ProcessorRuntime × RuntimeStep)}

/-! ## The books -/

/-- The books of a drive of the initial effects, from `r` to `s`. -/
structure DriveBooks (eventId : String → String) (r : ProcessorRuntime) (initial : List Effect)
    (s : ProcessorRuntime) (completed unanswered : List Effect)
    (tr : List (ProcessorRuntime × RuntimeStep)) : Prop where
  run : Run (next eventId) r tr s
  conserved : (initial ++ asked tr).Perm (completed ++ unanswered)
  /-- each completed effect was acknowledged under its own key, in their order -/
  answered : (completed.filterMap effectKey).Sublist (acknowledged tr)
  covered : ∀ key e, s.pending[key]? = some e →
    (∃ x ∈ unanswered, effectKey x = some key) ∨
      r.pending[key]? = some e ∧ ∀ x ∈ initial, effectKey x ≠ some key

theorem driveBooks_start : DriveBooks eventId r initial r [] initial [] where
  run := .nil
  conserved := by simp [asked]
  answered := List.nil_sublist _
  covered key e he := by
    by_cases hkey : ∃ x ∈ initial, effectKey x = some key
    · exact .inl hkey
    · exact .inr ⟨he, fun x hx hk => hkey ⟨x, hx, hk⟩⟩

namespace DriveBooks

/-- What is asked for is unanswered at first. -/
theorem extend (h : DriveBooks eventId r initial s completed unanswered tr)
    (hrun : Run (next eventId) s tr' t) :
    DriveBooks eventId r initial t completed (unanswered ++ asked tr') (tr ++ tr') where
  run := h.run.append hrun
  conserved := by simpa using h.conserved.append_right (asked tr')
  answered := by
    rw [acknowledged_append]
    exact h.answered.trans (List.sublist_append_left _ _)
  covered key e he := by
    rcases run_pending hrun he with ⟨x, hx, hkey⟩ | ⟨hold, -⟩
    · exact .inl ⟨x, List.mem_append_right _ hx, hkey⟩
    · refine (h.covered key e hold).imp_left ?_
      rintro ⟨x, hx, hkey⟩
      exact ⟨x, List.mem_append_left _ hx, hkey⟩

/-- **An answer keeps the books**: its effect is completed, what it asks for is unanswered. -/
theorem answer (h : DriveBooks eventId r initial s completed (effect :: unanswered) tr)
    (hrun : Run (next eventId) s tr' t)
    (hack : (effectKey effect).toList.Sublist (acknowledged tr')) :
    DriveBooks eventId r initial t (completed ++ [effect]) (unanswered ++ asked tr')
      (tr ++ tr') where
  run := h.run.append hrun
  conserved := by simpa using h.conserved.append_right (asked tr')
  answered := by
    rw [acknowledged_append, List.filterMap_append]
    refine h.answered.append ?_
    cases hkey : effectKey effect with
    | none => simp [hkey]
    | some key => simpa [hkey] using hack
  covered key e he := by
    rcases run_pending hrun he with ⟨x, hx, hkey⟩ | ⟨hold, hnot⟩
    · exact .inl ⟨x, List.mem_append_right _ hx, hkey⟩
    · refine (h.covered key e hold).imp_left ?_
      rintro ⟨x, hx, hkey⟩
      rcases List.mem_cons.1 hx with rfl | hx
      · exact absurd (hack.subset (by simp [hkey])) hnot
      · exact ⟨x, List.mem_append_left _ hx, hkey⟩

/-- Markers are completed without an answer; the rest may be taken in another order. -/
theorem mark {markers unanswered' : List Effect}
    (h : DriveBooks eventId r initial s completed unanswered tr)
    (hperm : unanswered.Perm (markers ++ unanswered'))
    (hm : ∀ x ∈ markers, effectKey x = none) :
    DriveBooks eventId r initial s (completed ++ markers) unanswered' tr where
  run := h.run
  conserved := by
    rw [List.append_assoc]
    exact h.conserved.trans (hperm.append_left _)
  answered := by
    rw [List.filterMap_append, List.filterMap_eq_nil_iff.2 hm, List.append_nil]
    exact h.answered
  covered key e he := by
    refine (h.covered key e he).imp_left ?_
    rintro ⟨x, hx, hkey⟩
    rcases List.mem_append.1 (hperm.subset hx) with hx | hx
    · rw [hm x hx] at hkey
      cases hkey
    · exact ⟨x, hx, hkey⟩

end DriveBooks

/-! ## One answer -/

/-- **An applied resolution is a run**, which acknowledges the effect unless it is refused or
held. -/
theorem applyResolution_run {resolution : EffectResolution} {now : String} {effects : List Effect}
    {result : Except DriveError (Option String)}
    (h : applyResolution eventId r effect resolution now = (s, effects, result)) :
    ∃ tr, Run (next eventId) r tr s ∧ asked tr = effects ∧
      (result = .ok none → (effectKey effect).toList.Sublist (acknowledged tr)) := by
  have hstay (hs : (r, ([] : List Effect), result) = (s, effects, result))
      (hres : result ≠ .ok none) : ∃ tr, Run (next eventId) r tr s ∧ asked tr = effects ∧
        (result = .ok none → (effectKey effect).toList.Sublist (acknowledged tr)) := by
    obtain ⟨rfl, rfl, -⟩ := by simpa using hs
    exact ⟨[], .nil, rfl, fun hr => absurd hr hres⟩
  unfold applyResolution at h
  split at h
  case h_1 error _ =>
    obtain ⟨rfl, rfl, rfl⟩ := by simpa using h
    exact hstay rfl (by simp)
  case h_2 hcheck =>
    cases resolution with
    | hold reason =>
      obtain ⟨rfl, rfl, rfl⟩ := by simpa using h
      exact hstay rfl (by simp)
    | acknowledge =>
      simp only at h
      split at h
      case h_1 s' hs =>
        obtain ⟨rfl, rfl, rfl⟩ := by simpa using h
        obtain ⟨key, hkey, hrun⟩ := run_acknowledgeEffect eventId hs
        exact ⟨_, hrun, rfl, fun _ => by simp [hkey, acknowledged, stepKey]⟩
      case h_2 =>
        obtain ⟨rfl, rfl, rfl⟩ := by simpa using h
        exact hstay rfl (by simp)
    | command command =>
      simp only at h
      split at h
      case h_1 s' new hs =>
        obtain ⟨rfl, rfl, rfl⟩ := by simpa using h
        obtain ⟨hrun, hasked⟩ := run_applyAt hs
        refine ⟨_, hrun, hasked, fun _ => ?_⟩
        have hack := checkCommand_iff.1 hcheck
        cases hkey : effectKey effect with
        | none => simp
        | some key => simp [acknowledged, stepKey, hack, hkey]
      case h_2 =>
        obtain ⟨rfl, rfl, rfl⟩ := by simpa using h
        exact hstay rfl (by simp)
    | reconciled command =>
      simp only at h
      split at h
      case h_1 applied new happlied =>
        obtain ⟨hrun, hasked⟩ := run_applyAt happlied
        split at h
        case h_1 s' hs =>
          obtain ⟨rfl, rfl, rfl⟩ := by simpa using h
          obtain ⟨key, hkey, hrun'⟩ := run_acknowledgeEffect eventId hs
          refine ⟨_, hrun.append hrun', ?_, fun _ => ?_⟩
          · rw [asked_append, hasked]
            simp [asked, stepEffects]
          · rw [acknowledged_append, hkey]
            refine List.Sublist.trans ?_ (List.sublist_append_right _ _)
            simp [acknowledged, stepKey]
        case h_2 =>
          obtain ⟨rfl, rfl, rfl⟩ := by simpa using h
          exact ⟨_, hrun, hasked, fun hr => by cases hr⟩
      case h_2 =>
        obtain ⟨rfl, rfl, rfl⟩ := by simpa using h
        exact hstay rfl (by simp)

/-! ## Batches -/

/-- What a batch takes from the queue is its markers and its leaves. -/
theorem collectTaskBatch_spec (ids : List String) (queue : List Effect) :
    (queue.take (collectTaskBatch ids queue).consumed).Perm
        (List.replicate (collectTaskBatch ids queue).markers .persistCheckpoint ++
          (collectTaskBatch ids queue).effects) ∧
      (collectTaskBatch ids queue).consumed =
        (collectTaskBatch ids queue).markers + (collectTaskBatch ids queue).effects.length := by
  induction queue generalizing ids with
  | nil => simp [collectTaskBatch]
  | cons effect queue ih =>
    simp only [collectTaskBatch]
    split
    case h_1 taskId _ =>
      split
      case isTrue => simp
      case isFalse =>
        obtain ⟨hperm, hcount⟩ := ih (taskId :: ids)
        refine ⟨?_, ?_⟩
        · rw [List.take_succ_cons]
          exact (hperm.cons effect).trans List.perm_middle.symm
        · simp only [List.length_cons]
          omega
    case h_2 =>
      split
      case isTrue hmarker =>
        obtain ⟨hperm, hcount⟩ := ih ids
        refine ⟨?_, ?_⟩
        · rw [List.take_succ_cons, List.replicate_succ, hmarker]
          exact hperm.cons _
        · simp only
          omega
      case isFalse => simp

theorem taskBatchAtFront_spec {queue : List Effect} {batch : TaskBatch}
    (h : taskBatchAtFront queue = some batch) :
    (queue.take batch.consumed).Perm
        (List.replicate batch.markers .persistCheckpoint ++ batch.effects) ∧
      batch.consumed = batch.markers + batch.effects.length ∧ 2 ≤ batch.effects.length := by
  unfold taskBatchAtFront at h
  simp only at h
  split at h
  case isFalse => cases h
  case isTrue htwo =>
    obtain rfl := Option.some.inj h
    obtain ⟨hperm, hcount⟩ := collectTaskBatch_spec [] queue
    have hsort := List.mergeSort_perm (collectTaskBatch [] queue).effects
      fun a b => decide (taskEffectId a ≤ taskEffectId b)
    refine ⟨hperm.trans (hsort.symm.append_left _), ?_, ?_⟩
    · simpa using hcount
    · simpa using htwo

/-! ## A turn -/

def Driver.Accounts (eventId : String → String) (r : ProcessorRuntime) (initial : List Effect)
    (d : Driver σ) : Prop :=
  ∃ tr, DriveBooks eventId r initial d.runtime d.completed d.unanswered tr

/-- A turn that started with `n` completed effects: it completes `count` more and leaves `rest` in
hand, or ends with the books in order. -/
def DriveTurn.Keeps (eventId : String → String) (r : ProcessorRuntime) (initial : List Effect)
    (n count : Nat) (rest : List Effect) : DriveTurn σ ε → Prop
  | .next d => d.Accounts eventId r initial ∧ d.inHand = rest ∧ d.completed.length = n + count
  | .ended d result =>
    d.Accounts eventId r initial ∧ d.completed.length ≤ n + count ∧ result ≠ .ok none

/-- A turn of the loop that started with `n` completed effects. -/
def DriveTurn.Within (eventId : String → String) (r : ProcessorRuntime) (initial : List Effect)
    (n maxSteps : Nat) : DriveTurn σ ε → Prop
  | .next d =>
    d.Accounts eventId r initial ∧ d.inHand = [] ∧ n < d.completed.length ∧
      d.completed.length ≤ maxSteps
  | .ended d result =>
    d.Accounts eventId r initial ∧ d.completed.length ≤ maxSteps ∧
      (result = .ok none → d.unanswered = [])

variable {d : Driver σ} {now : String}

theorem Driver.Accounts.own (h : d.Accounts eventId r initial) (own : σ) :
    ({ d with executor := own } : Driver σ).Accounts eventId r initial := h

theorem DriveTurn.Keeps.within {turn : DriveTurn σ ε} {m n count maxSteps : Nat}
    (h : turn.Keeps eventId r initial n count []) (hmore : m < n + count)
    (hroom : n + count ≤ maxSteps) : turn.Within eventId r initial m maxSteps := by
  cases turn with
  | next d =>
    obtain ⟨hacc, hhand, hlen⟩ := h
    exact ⟨hacc, hhand, by omega, by omega⟩
  | ended d result =>
    obtain ⟨hacc, hlen, hres⟩ := h
    exact ⟨hacc, by omega, fun hr => absurd hr hres⟩

theorem recordLeafSession_driver (executor : EffectExecutor σ ε) (d : Driver σ) (effect : Effect) :
    ∃ own, (executor.recordLeafSession d effect).2 = { d with executor := own } := by
  unfold EffectExecutor.recordLeafSession
  split
  · exact ⟨d.executor, rfl⟩
  · split
    · exact ⟨_, rfl⟩
    · exact ⟨_, rfl⟩

theorem forgetStagedLeafSessions_driver (executor : EffectExecutor σ ε) (d : Driver σ)
    (effects : List Effect) :
    ∃ own, executor.forgetStagedLeafSessions d effects = { d with executor := own } := by
  unfold EffectExecutor.forgetStagedLeafSessions
  induction effects.filterMap leafSessionTaskId generalizing d with
  | nil => exact ⟨d.executor, rfl⟩
  | cons taskId ids ih =>
    obtain ⟨own, hown⟩ := @ih { d with executor := (executor.takeLeafSession d.executor taskId).2 }
    exact ⟨own, by rw [List.foldl_cons, hown]⟩

theorem answerEffect_keeps (executor : EffectExecutor σ ε) (now : String)
    (resolution : EffectResolution) (h : d.Accounts eventId r initial)
    (hin : d.inHand = effect :: rest) :
    (answerEffect eventId executor d now effect resolution rest).Keeps eventId r initial
      d.completed.length 1 rest := by
  obtain ⟨tr, h⟩ := h
  rw [Driver.unanswered, hin] at h
  obtain ⟨own, hown⟩ := recordLeafSession_driver executor d effect
  unfold answerEffect
  rcases hrec : executor.recordLeafSession d effect with ⟨recorded, d'⟩
  rw [hrec] at hown
  obtain rfl : d' = { d with executor := own } := hown
  cases recorded with
  | error error =>
    refine ⟨⟨tr, ?_⟩, Nat.le_succ _, by simp⟩
    rw [Driver.unanswered, hin]
    exact h
  | ok _ =>
    rcases happ : applyResolution eventId d.runtime effect resolution now with ⟨s, new, result⟩
    obtain ⟨tr', hrun, rfl, hack⟩ := applyResolution_run happ
    -- refused or held, the effect stays in hand
    have hkept : DriveBooks eventId r initial s d.completed
        (effect :: rest ++ (d.queue ++ asked tr')) (tr ++ tr') := by
      rw [← List.append_assoc]
      exact h.extend hrun
    simp only [happ]
    cases result with
    | error error =>
      refine ⟨⟨tr ++ tr', ?_⟩, Nat.le_succ _, by simp⟩
      rw [Driver.unanswered, hin]
      exact hkept
    | ok held =>
      cases held with
      | some reason =>
        refine ⟨⟨tr ++ tr', ?_⟩, Nat.le_succ _, by simp⟩
        rw [Driver.unanswered, hin]
        exact hkept
      | none =>
        refine ⟨⟨tr ++ tr', ?_⟩, rfl, by simp⟩
        rw [Driver.unanswered, ← List.append_assoc]
        exact h.answer hrun (hack rfl)

theorem answerBatch_keeps {answers : List (Effect × EffectResolution)} {n : Nat}
    (h : d.Accounts eventId r initial) (hin : d.inHand = answers.map Prod.fst)
    (hn : d.completed.length + answers.length = n) :
    (answerBatch eventId executor now answers d).Keeps eventId r initial n 0 [] := by
  induction answers generalizing d with
  | nil => exact ⟨h, by simpa using hin, by simpa using hn⟩
  | cons answer answers ih =>
    obtain ⟨effect, resolution⟩ := answer
    have hone := answerEffect_keeps executor now resolution h hin
    rw [List.length_cons] at hn
    unfold answerBatch
    cases hturn : answerEffect eventId executor d now effect resolution (answers.map Prod.fst) with
    | next d' =>
      rw [hturn] at hone
      obtain ⟨hacc, hin', hlen⟩ := hone
      exact ih hacc hin' (by omega)
    | ended d' result =>
      rw [hturn] at hone
      obtain ⟨hacc, hlen, hres⟩ := hone
      exact ⟨hacc, by omega, hres⟩

theorem dispatchOne_keeps {occurredAt : String} (h : d.Accounts eventId r initial)
    (hin : d.inHand = [effect]) :
    (dispatchOne eventId executor occurredAt d effect).Keeps eventId r initial
      d.completed.length 1 [] := by
  unfold dispatchOne
  split
  case h_1 =>
    obtain ⟨tr, h⟩ := h
    rw [Driver.unanswered, hin] at h
    refine ⟨⟨tr, h.mark (.refl _) ?_⟩, rfl, by simp⟩
    intro x hx
    obtain rfl := List.mem_singleton.1 hx
    rfl
  case h_2 => exact ⟨h, Nat.le_succ _, by simp⟩
  case h_3 =>
    split
    case h_1 error own _ =>
      obtain ⟨own', hforget⟩ := forgetStagedLeafSessions_driver executor
        { d with executor := own } [effect]
      rw [hforget]
      exact ⟨h.own own', Nat.le_succ _, by simp⟩
    case h_2 resolution own _ =>
      split
      case h_1 error own' _ => exact ⟨h.own own', Nat.le_succ _, by simp⟩
      case h_2 eventOccurredAt own' _ =>
        exact answerEffect_keeps executor eventOccurredAt resolution (h.own own') hin

theorem dispatchBatch_keeps {occurredAt : String} {queue : List Effect} {batch : TaskBatch}
    (h : d.Accounts eventId r initial) (hbatch : taskBatchAtFront queue = some batch)
    (hin : d.inHand = queue.take batch.consumed) :
    (dispatchBatch eventId executor occurredAt d batch).Keeps eventId r initial
      (d.completed.length + batch.consumed) 0 [] := by
  obtain ⟨hperm, hcount, -⟩ := taskBatchAtFront_spec hbatch
  unfold dispatchBatch
  split
  case h_1 error own _ =>
    obtain ⟨own', hforget⟩ := forgetStagedLeafSessions_driver executor
      { d with executor := own } batch.effects
    rw [hforget]
    exact ⟨h.own own', by simp, by simp⟩
  case h_2 resolutions own _ =>
    split
    case isTrue => exact ⟨h.own own, by simp, by simp⟩
    case isFalse hlen =>
      rcases hnow : executor.eventOccurredAt own occurredAt with ⟨answer, own'⟩
      -- the markers are counted, the leaves are in hand in their order
      have hmarked : ({ d with
          executor := own'
          inHand := batch.effects
          completed := d.completed ++ List.replicate batch.markers .persistCheckpoint } :
            Driver σ).Accounts eventId r initial := by
        obtain ⟨tr, h⟩ := h
        rw [Driver.unanswered, hin] at h
        refine ⟨tr, h.mark ?_ ?_⟩
        · rw [Driver.unanswered, ← List.append_assoc]
          exact hperm.append_right _
        · intro x hx
          rw [List.eq_of_mem_replicate hx]
          rfl
      cases answer with
      | error error => exact ⟨hmarked, by simp [hcount], by simp⟩
      | ok eventOccurredAt =>
        have hsame : resolutions.length = batch.effects.length := by simpa using hlen
        refine answerBatch_keeps hmarked ?_ ?_
        · simp [List.map_fst_zip, hsame]
        · simp only [List.length_append, List.length_replicate, List.length_zip, hsame, hcount]
          omega

/-- **A turn keeps the books and gets on**: it ends the drive, or completes something within the
limit and leaves nothing in hand. -/
theorem driveTurn_keeps (executor : EffectExecutor σ ε) (occurredAt : String) {maxSteps : Nat}
    (h : d.Accounts eventId r initial)
    (hin : d.inHand = []) (hmax : d.completed.length ≤ maxSteps) :
    (driveTurn eventId executor occurredAt maxSteps d).Within eventId r initial
      d.completed.length maxSteps := by
  have htaken : ∀ front back, d.queue = front ++ back →
      ({ d with inHand := front, queue := back } : Driver σ).Accounts eventId r initial := by
    intro front back hq
    obtain ⟨tr, h⟩ := h
    rw [Driver.unanswered, hin, List.nil_append, hq] at h
    exact ⟨tr, h⟩
  unfold driveTurn
  split
  case h_1 hq =>
    refine ⟨h, hmax, fun _ => ?_⟩
    rw [Driver.unanswered, hin, hq, List.append_nil]
  case h_2 effect queue hq =>
    split
    case isTrue => exact ⟨h, hmax, fun hr => by cases hr⟩
    case isFalse hlimit =>
      split
      case h_1 batch hbatch =>
        have hfront : taskBatchAtFront d.queue = some batch := by
          split at hbatch
          · exact hbatch
          · cases hbatch
        obtain ⟨-, hcount, htwo⟩ := taskBatchAtFront_spec hfront
        split
        case isTrue => exact ⟨h, hmax, fun hr => by cases hr⟩
        case isFalse hroom =>
          have htake := htaken _ _ (List.take_append_drop batch.consumed d.queue).symm
          refine (dispatchBatch_keeps htake hfront rfl).within ?_ ?_
          · simp only
            omega
          · simp only
            omega
      case h_2 =>
        refine (dispatchOne_keeps (htaken [effect] queue hq) rfl).within ?_ ?_
        · simp only
          omega
        · simp only
          omega

/-! ## The loop -/

theorem driveLoop_keeps {occurredAt : String} {maxSteps fuel : Nat}
    (h : d.Accounts eventId r initial) (hin : d.inHand = []) (hmax : d.completed.length ≤ maxSteps)
    (hfuel : maxSteps < d.completed.length + fuel) :
    ∃ d' result, driveLoop eventId executor occurredAt maxSteps fuel d = some (d', result) ∧
      d'.Accounts eventId r initial ∧ d'.completed.length ≤ maxSteps ∧
      (result = .ok none → d'.unanswered = []) := by
  induction fuel generalizing d with
  | zero => omega
  | succ fuel ih =>
    have hturn := driveTurn_keeps executor occurredAt h hin hmax
    unfold driveLoop
    cases hd : driveTurn eventId executor occurredAt maxSteps d with
    | next d' =>
      rw [hd] at hturn
      obtain ⟨hacc, hhand, hmore, hroom⟩ := hturn
      exact ih hacc hhand hroom (by omega)
    | ended d' result =>
      rw [hd] at hturn
      exact ⟨d', result, rfl, hturn⟩

theorem drive_accounts (eventId : String → String) (executor : EffectExecutor σ ε)
    (occurredAt : String) (maxSteps : Nat) (r : ProcessorRuntime) (initial : List Effect)
    (own : σ) :
    ∃ d result, drive eventId executor occurredAt maxSteps r initial own = some (d, result) ∧
      d.Accounts eventId r initial ∧ d.completed.length ≤ maxSteps ∧
      (result = .ok none → d.unanswered = []) :=
  driveLoop_keeps ⟨[], driveBooks_start⟩ rfl (Nat.zero_le _) (by simp)

/-- **A drive ends within its limit with its books in order**, whatever the executor answers. It is
a run of the runtime; the effects it was given and asked for are, each once, the completed and the
unanswered ones; every completed one was acknowledged in its turn; what is outstanding at the end is
the key of an unanswered effect, or was outstanding before and is not that of an initial effect. A
drive that is neither held nor refused leaves no effect unanswered. -/
theorem drive_exact (executor : EffectExecutor σ ε) (occurredAt : String) (maxSteps : Nat)
    (r : ProcessorRuntime) (initial : List Effect) (own : σ) :
    ∃ d result, drive eventId executor occurredAt maxSteps r initial own = some (d, result) ∧
      (∃ tr, DriveBooks eventId r initial d.runtime d.completed d.unanswered tr) ∧
      d.completed.length ≤ maxSteps ∧ (result = .ok none → d.unanswered = []) :=
  drive_accounts eventId executor occurredAt maxSteps r initial own

end Orchestrail
