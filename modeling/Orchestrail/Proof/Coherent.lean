import Orchestrail.Proof.ConsoleGate

/-!
# The console stays coherent

Whatever keys are pressed and whatever the refreshes bring, with no assumption on the cards, the
console's state hangs together: the selection is on a card of the list, an approval modal names a
card of the list, what is typed has no control character. A decision that leaves it is on the
selected card.
-/

namespace Orchestrail.Console

open Text

/-- An offset of 16 bits. -/
def Scrolled (offset : Int) : Prop := 0 ≤ offset ∧ offset ≤ 65535

structure Coherent (app : AppState) : Prop where
  selected : app.approvalSelected ≤ app.approvals.length - 1
  captured : app.approvalModalActive = true → ∃ card ∈ app.approvals,
    app.approvalModalId = some card.id ∧ app.approvalModalBackend = some card.backend
  released : app.approvalModalActive = false →
    app.approvalModalId = none ∧ app.approvalModalBackend = none
  reason : app.modal = .confirmReject →
    app.rejectionReason ≠ [] ∧ trim app.rejectionReason = app.rejectionReason
  printed : ∀ ch ∈ app.rejectionReason, isControl ch = false
  editing : app.eventLogFilterInput.isSome = true → app.modal = .none
  taskId : trim app.eventLogFilterTaskId = app.eventLogFilterTaskId
  eventType : trim app.eventLogFilterEventType = app.eventLogFilterEventType
  cohort : trim app.eventLogFilterCohort = app.eventLogFilterCohort
  log : Scrolled app.eventLogScroll
  inbox : ∀ panel, Scrolled (app.inboxScroll panel)

/-- A decision is on the selected card, and a rejection says why. -/
def Backed (app : AppState) : Effect → Prop
  | .decideApproval id backend decision reason =>
    app.pendingApproval = some ⟨backend, id⟩ ∧
      match decision with
      | .approve => reason = none
      | .reject => ∃ text, reason = some text ∧ text ≠ [] ∧ trim text = text ∧
        ∀ ch ∈ text, isControl ch = false
  | _ => True

section Operations

variable {app : AppState}

theorem scrolled_zero : Scrolled 0 := ⟨by decide, by decide⟩

theorem clampScroll_scrolled (offset : Int) : Scrolled (clampScroll offset) := by
  unfold Scrolled clampScroll
  omega

/-! ## Screens, panels and filters -/

theorem Coherent.setFilter (h : Coherent app) (field : EventLogFilterField) {value : List Char}
    (hvalue : trim value = value) : Coherent (app.setFilter field value) := by
  cases field with
  | taskId => exact { h with taskId := hvalue }
  | eventType => exact { h with eventType := hvalue }
  | cohort => exact { h with cohort := hvalue }

theorem Coherent.filterKey (h : Coherent app) (key : KeyEvent)
    (hinput : app.eventLogFilterInput.isSome = true) :
    Coherent (handleEventLogFilterKey app key) := by
  have hmodal := h.editing hinput
  unfold handleEventLogFilterKey AppState.commitEventLogFilter AppState.popEventLogFilterChar
    AppState.pushEventLogFilterChar
  split <;> repeat' split
  all_goals first
    | exact h
    | exact { h with editing := fun _ => hmodal }
    | skip
  case h_2 field _ =>
    have hset := h.setFilter field (trim_trim app.eventLogFilterBuffer)
    exact { hset with
      editing := fun hnone => absurd hnone Bool.false_ne_true
      log := scrolled_zero }

theorem Coherent.clearEventLogFilter (h : Coherent app) (field : EventLogFilterField) :
    Coherent (app.clearEventLogFilter field) :=
  { h.setFilter field rfl with log := scrolled_zero }

theorem Coherent.scrollEventLog (h : Coherent app) (delta : Int) :
    Coherent (app.scrollEventLog delta) :=
  { h with log := clampScroll_scrolled _ }

theorem Coherent.moveInbox (h : Coherent app) (delta : Int) : Coherent (moveInbox app delta) := by
  unfold Console.moveInbox AppState.selectApproval AppState.scrollInbox
  split
  · split
    · exact { h with selected := Nat.zero_le _ }
    · refine { h with selected := ?_ }
      dsimp only
      omega
  · refine { h with inbox := fun panel => ?_ }
    dsimp only
    split
    · exact clampScroll_scrolled _
    · exact h.inbox panel

/-! ## Approvals -/

theorem reselect_within (app : AppState) (approvals : List ApprovalCard) :
    app.reselect approvals ≤ approvals.length - 1 := by
  unfold AppState.reselect
  cases hfind : app.pendingApproval.bind fun card => approvals.findIdx? (·.id = card.id) with
  | none => exact Nat.min_le_right _ _
  | some i =>
    obtain ⟨card, -, hcard⟩ := Option.bind_eq_some_iff.1 hfind
    have hlt := (List.findIdx?_eq_some_iff_getElem.1 hcard).1
    exact Nat.le_sub_one_of_lt hlt

theorem Coherent.dismissModal (h : Coherent app) : Coherent app.dismissModal :=
  { h with
    captured := fun hactive => absurd hactive Bool.false_ne_true
    released := fun _ => ⟨rfl, rfl⟩
    reason := fun hmodal => by cases hmodal
    printed := fun ch hch => absurd hch List.not_mem_nil
    editing := fun _ => rfl }

/-- A list that has lost the modal's card closes the modal. -/
theorem Coherent.replaceInbox (h : Coherent app) (approvals : List ApprovalCard) :
    Coherent (app.replaceInbox approvals) := by
  have hwithin := reselect_within app approvals
  unfold AppState.replaceInbox
  split
  case h_1 hid =>
    refine { h with selected := hwithin, captured := fun hactive => ?_ }
    obtain ⟨card, -, hcard, -⟩ := h.captured hactive
    rw [hid] at hcard
    cases hcard
  case h_2 captured hid =>
    split
    case isTrue =>
      exact { h with
        selected := hwithin
        captured := fun hactive => absurd hactive Bool.false_ne_true
        released := fun _ => ⟨rfl, rfl⟩
        reason := fun hmodal => by cases hmodal
        printed := fun ch hch => absurd hch List.not_mem_nil
        editing := fun _ => rfl }
    case isFalse hkept =>
      refine { h with selected := hwithin, captured := fun hactive => ?_ }
      have hactive' : app.approvalModalActive = true := hactive
      rw [hactive', Bool.true_and, Bool.not_eq_true, Bool.not_eq_false'] at hkept
      obtain ⟨card, hmem, hcard⟩ := List.any_eq_true.1 hkept
      rw [Bool.and_eq_true, decide_eq_true_iff, decide_eq_true_iff] at hcard
      exact ⟨card, hmem, hid.trans (congrArg some hcard.1.symm), hcard.2.symm⟩

theorem mem_of_pending {card : ApprovalCard} (h : app.pendingApproval = some card) :
    card ∈ app.approvals :=
  List.mem_of_getElem? h

theorem Coherent.armApproval (h : Coherent app) {modal : Modal}
    (hmodal : modal = .confirmApprove ∨ modal = .enterRejectReason)
    (hinput : app.eventLogFilterInput.isSome = false) : Coherent (app.armApproval modal) := by
  unfold AppState.armApproval
  split
  case h_1 => exact h
  case h_2 card hcard =>
    have hactive : AppState.approvalModalActive { app with
        approvalModalId := some card.id, approvalModalBackend := some card.backend,
        rejectionReason := [], modal } = true := by
      rcases hmodal with rfl | rfl <;> rfl
    exact { h with
      captured := fun _ => ⟨card, mem_of_pending hcard, rfl, rfl⟩
      released := fun hnone => absurd (hactive.symm.trans hnone) Bool.false_ne_true.symm
      reason := fun hreject => by rcases hmodal with rfl | rfl <;> cases hreject
      printed := fun ch hch => absurd hch List.not_mem_nil
      editing := fun hsome => absurd (hinput.symm.trans hsome) Bool.false_ne_true }

theorem Coherent.armForceLock (h : Coherent app)
    (hinput : app.eventLogFilterInput.isSome = false) : Coherent app.armForceLock :=
  { h with
    captured := fun hactive => absurd hactive Bool.false_ne_true
    released := fun _ => ⟨rfl, rfl⟩
    reason := fun hmodal => by cases hmodal
    editing := fun hsome => absurd (hinput.symm.trans hsome) Bool.false_ne_true }

/-! ## The routers -/

theorem Coherent.handleKey (h : Coherent app) (key : KeyEvent) (answer : List ApprovalCard)
    (hmodal : app.modal = .none) (hinput : app.eventLogFilterInput.isSome = false) :
    Coherent (handleKey app key answer).1 := by
  have hbegin (field) : Coherent (app.beginEventLogFilter field) :=
    { h with editing := fun _ => hmodal }
  have happrove : Coherent app.armApprove := h.armApproval (.inl rfl) hinput
  have hreject : Coherent app.armReject := h.armApproval (.inr rfl) hinput
  unfold Console.handleKey
  dsimp only
  split <;> repeat' split
  all_goals first
    | exact h
    | exact { h with }
    | exact h.replaceInbox answer
    | exact h.moveInbox _
    | exact h.scrollEventLog _
    | exact h.clearEventLogFilter _
    | exact hbegin _
    | exact happrove
    | exact hreject
    | exact h.armForceLock hinput

theorem Coherent.rejection (h : Coherent app) (hmodal : app.modal = .enterRejectReason)
    {text : List Char} (htext : ∀ ch ∈ text, isControl ch = false) :
    Coherent { app with rejectionReason := text } :=
  { h with
    reason := fun hreject => by rw [hmodal] at hreject; cases hreject
    printed := htext }

theorem Coherent.pushRejectionChar (h : Coherent app) (ch : Char) :
    Coherent (app.pushRejectionChar ch) := by
  unfold AppState.pushRejectionChar
  split
  case isTrue hpush =>
    rw [Bool.and_eq_true, decide_eq_true_iff, Bool.not_eq_true'] at hpush
    refine h.rejection hpush.1 fun other hother => ?_
    rcases List.mem_append.1 hother with hother | hother
    · exact h.printed other hother
    · rw [List.mem_singleton.1 hother]
      exact hpush.2
  case isFalse => exact h

theorem Coherent.popRejectionChar (h : Coherent app) : Coherent app.popRejectionChar := by
  unfold AppState.popRejectionChar
  split
  case isTrue hpop =>
    exact h.rejection hpop fun ch hch => h.printed ch (List.mem_of_mem_dropLast hch)
  case isFalse => exact h

theorem Coherent.confirmRejectionReason (h : Coherent app) :
    Coherent app.confirmRejectionReason := by
  unfold AppState.confirmRejectionReason
  split
  case isTrue hconfirm =>
    rw [Bool.and_eq_true, decide_eq_true_iff, decide_eq_true_iff] at hconfirm
    have hactive : app.approvalModalActive = true := by
      unfold AppState.approvalModalActive
      rw [hconfirm.1]
      rfl
    exact { h with
      captured := fun _ => h.captured hactive
      released := fun hnone => absurd hnone Bool.false_ne_true.symm
      reason := fun _ => ⟨hconfirm.2, trim_trim _⟩
      printed := fun ch hch => h.printed ch ((trim_within _).subset hch)
      editing := fun hsome => by
        have hnone := h.editing hsome
        rw [hconfirm.1] at hnone
        cases hnone }
  case isFalse => exact h

/-- A confirmed decision is on the selected card, which the modal names. -/
theorem Coherent.takeApprovalConfirmation (h : Coherent app) :
    Coherent app.takeApprovalConfirmation.2 ∧
      ∀ action, app.takeApprovalConfirmation.1 = some action →
        Backed app (.decideApproval action.id action.backend action.decision
          action.rejectionReason) := by
  unfold AppState.takeApprovalConfirmation
  dsimp only
  split
  case h_1 =>
    refine ⟨h, fun action haction => ?_⟩
    cases haction
  case h_2 decision hdecision =>
    split
    case h_1 id backend card hid hbackend hcard =>
      split
      case isTrue hsame =>
        obtain ⟨rfl, rfl⟩ := hsame
        refine ⟨{ h with
          captured := fun hactive => absurd hactive Bool.false_ne_true
          released := fun _ => ⟨rfl, rfl⟩
          reason := fun hmodal => by cases hmodal
          editing := fun _ => rfl }, fun action haction => ?_⟩
        cases haction
        refine ⟨hcard, ?_⟩
        cases decision with
        | approve => rfl
        | reject =>
          have hmodal : app.modal = .confirmReject := by
            cases hm : app.modal with
            | confirmReject => rfl
            | _ =>
              rw [hm] at hdecision
              cases hdecision
          obtain ⟨hne, htrim⟩ := h.reason hmodal
          exact ⟨app.rejectionReason, rfl, hne, htrim, h.printed⟩
      case isFalse =>
        refine ⟨h.dismissModal, fun action haction => ?_⟩
        cases haction
    case h_2 =>
      refine ⟨h.dismissModal, fun action haction => ?_⟩
      cases haction

theorem Coherent.takeForceLockConfirmation (h : Coherent app) :
    Coherent app.takeForceLockConfirmation.2 := by
  unfold AppState.takeForceLockConfirmation
  split
  case isTrue hlock =>
    have hinactive : app.approvalModalActive = false := inactive (.inr hlock)
    exact { h with
      captured := fun hactive => absurd hactive Bool.false_ne_true
      released := fun _ => h.released hinactive
      reason := fun hmodal => by cases hmodal
      editing := fun _ => rfl }
  case isFalse => exact h

theorem Coherent.handleModalKey (h : Coherent app) (key : KeyEvent)
    (answer : List ApprovalCard) : Coherent (handleModalKey app key answer).1 ∧
      ∀ effect ∈ (Console.handleModalKey app key answer).2, Backed app effect := by
  obtain ⟨htaken, hsound⟩ := h.takeApprovalConfirmation
  have hlock := h.takeForceLockConfirmation
  have hrejecting :
      Coherent (if key.modifiers.isEmpty then app.confirmRejectionReason else app) := by
    split
    · exact h.confirmRejectionReason
    · exact h
  have hpopped : Coherent (if key.modifiers.isEmpty then app.popRejectionChar else app) := by
    split
    · exact h.popRejectionChar
    · exact h
  have htyped (ch) :
      Coherent (if key.modifiers.isEmpty then app.pushRejectionChar ch else app) := by
    split
    · exact h.pushRejectionChar ch
    · exact h
  have hidle {next : AppState} (hnext : Coherent next) :
      Coherent next ∧ ∀ effect ∈ ([] : List Effect), Backed app effect :=
    ⟨hnext, fun effect heffect => absurd heffect List.not_mem_nil⟩
  unfold Console.handleModalKey
  cases hm : app.modal with
  | none => exact hidle h
  | enterRejectReason =>
    dsimp only
    split
    · exact hidle h.dismissModal
    · exact hidle hpopped
    · exact hidle hrejecting
    · exact hidle (htyped _)
    · exact hidle h
  | confirmForceLock =>
    dsimp only
    split
    · cases htake : app.takeForceLockConfirmation with
      | mk taken next =>
        rw [htake] at hlock
        cases taken with
        | true =>
          refine ⟨hlock, fun effect heffect => ?_⟩
          rw [List.mem_singleton.1 heffect]
          trivial
        | false => exact hidle hlock
    · exact hidle h.dismissModal
  | confirmApprove | confirmReject =>
    dsimp only
    split
    · cases htake : app.takeApprovalConfirmation with
      | mk action next =>
        rw [htake] at htaken hsound
        cases action with
        | none => exact hidle htaken
        | some action =>
          refine ⟨htaken.replaceInbox answer, fun effect heffect => ?_⟩
          rw [List.mem_singleton.1 heffect]
          exact hsound action rfl
    · exact hidle h.dismissModal

theorem Backed.of_harmless {effect : Effect} (h : effect.harmless = true) : Backed app effect := by
  cases effect with
  | decideApproval id backend decision reason => cases h
  | _ => trivial

/-- One step keeps the state coherent and does only what is sound. -/
theorem Coherent.step (h : Coherent app) (next : Step) :
    Coherent (step app next).1 ∧ ∀ effect ∈ (Console.step app next).2, Backed app effect := by
  cases next with
  | refresh approvals =>
    exact ⟨h.replaceInbox approvals, fun effect heffect => absurd heffect List.not_mem_nil⟩
  | journal batchId =>
    exact ⟨{ h with }, fun effect heffect => absurd heffect List.not_mem_nil⟩
  | key key answer =>
    unfold Console.step
    dsimp only
    split
    case isTrue hinput =>
      exact ⟨h.filterKey key hinput, fun effect heffect => absurd heffect List.not_mem_nil⟩
    case isFalse hinput =>
      split
      case isTrue => exact h.handleModalKey key answer
      case isFalse hmodal =>
        refine ⟨h.handleKey key answer (not_not.1 hmodal) (Bool.not_eq_true _ ▸ hinput), ?_⟩
        intro effect heffect
        exact Backed.of_harmless (handleKey_harmless app key answer effect heffect)

end Operations

theorem coherent_start : Coherent {} where
  selected := Nat.le_refl 0
  captured hactive := absurd hactive Bool.false_ne_true
  released _ := ⟨rfl, rfl⟩
  reason hmodal := by cases hmodal
  printed ch hch := absurd hch List.not_mem_nil
  editing _ := rfl
  taskId := rfl
  eventType := rfl
  cohort := rfl
  log := scrolled_zero
  inbox _ := scrolled_zero

theorem coherent_run {app : AppState} (h : Coherent app) (steps : List Step) :
    Coherent (run app steps) := by
  induction steps generalizing app with
  | nil => exact h
  | cons next steps ih => exact ih (h.step next).1

/-- Behind any keys and refreshes the state is coherent, and whatever key comes next, a decision it
sends out is on the card selected then and a rejection has a reason. -/
theorem coherent (steps : List Step) : Coherent (run {} steps) ∧
    ∀ next, ∀ effect ∈ (step (run {} steps) next).2, Backed (run {} steps) effect := by
  have hrun := coherent_run coherent_start steps
  exact ⟨hrun, fun next => (hrun.step next).2⟩

end Orchestrail.Console
