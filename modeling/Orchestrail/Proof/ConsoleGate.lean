import Orchestrail.Spec.Console
import Mathlib.Data.List.Nodup

/-!
# The confirmation gate of the console

`Gate` is what the operator is in the middle of: nothing, a force-lock, or an approval with the card
and the text typed for it. It moves by the keys and refreshes alone. The routers follow it
(`Follows`), as long as no key arrives with Shift that they take for a shortcut.
-/

namespace Orchestrail.Console

open Text

/-! ## The gate -/

inductive Gate where
  | closed | lock
  | approve (card : ApprovalCard)
  | typing (card : ApprovalCard) (typed : List Char)
  | reject (card : ApprovalCard) (reason : List Char)
  deriving DecidableEq

def shifted : KeyModifiers := { shift := true }

/-- An unmodified `y` or Enter, or a capital `Y` with or without its Shift. -/
def confirms (key : KeyEvent) : Bool :=
  (key.modifiers = {} && (key.code = .char 'y' || key.code = .enter)) ||
    (key.code = .char 'Y' && (key.modifiers = {} || key.modifiers = shifted))

/-- The printable character of a key, with or without Shift. -/
def printed (key : KeyEvent) : Option Char :=
  match key.code with
  | .char ch =>
    if (key.modifiers = {} || key.modifiers = shifted) && !isControl ch then some ch else none
  | _ => none

/-- What a key does to a text. -/
def edit (typed : List Char) (key : KeyEvent) : List Char :=
  if key = ⟨.backspace, {}⟩ then typed.dropLast else typed ++ (printed key).toList

/-- The flow that a key arms. -/
def armed (app : AppState) (key : KeyEvent) : Gate :=
  if app.eventLogFilterInput.isSome then .closed
  else if key = ⟨.char 'x', {}⟩ then .lock
  else if app.screen = .decisionInbox then
    match app.pendingApproval with
    | none => .closed
    | some card =>
      if key = ⟨.char 'a', {}⟩ then .approve card
      else if key = ⟨.char 'd', {}⟩ then .typing card []
      else .closed
  else .closed

/-- A flow ends when its card is no longer pending. -/
def Gate.refreshed (gate : Gate) (approvals : List ApprovalCard) : Gate :=
  match gate with
  | .approve card => if card ∈ approvals then gate else .closed
  | .typing card _ => if card ∈ approvals then gate else .closed
  | .reject card _ => if card ∈ approvals then gate else .closed
  | _ => gate

def Gate.next (gate : Gate) (app : AppState) : Step → Gate
  | .refresh approvals => gate.refreshed approvals
  | .journal _ => gate
  | .key key _ =>
    match gate with
    | .closed => armed app key
    | .lock => .closed
    | .approve _ => .closed
    | .reject _ _ => .closed
    | .typing card typed =>
      if key.code = .esc then .closed
      else if key = ⟨.enter, {}⟩ then
        if trim typed = [] then gate else .reject card (trim typed)
      else .typing card (edit typed key)

/-- What is done while a flow is open. -/
def Gate.effects (gate : Gate) : Step → List Effect
  | .key key _ =>
    if confirms key then
      match gate with
      | .lock => [.forceLock]
      | .approve card => [.decideApproval card.id card.backend .approve none]
      | .reject card reason => [.decideApproval card.id card.backend .reject (some reason)]
      | _ => []
    else []
  | _ => []

/-- The gate behind some steps. -/
def gateAfter (app : AppState) : List Step → Gate → Gate
  | [], gate => gate
  | next :: steps, gate => gateAfter (step app next).1 steps (gate.next app next)

/-! ## The routers follow the gate -/

/-- The modal is open on the card, which is the selected one. -/
structure OpenOn (app : AppState) (card : ApprovalCard) (modal : Modal) : Prop where
  modal : app.modal = modal
  filter : app.eventLogFilterInput = none
  id : app.approvalModalId = some card.id
  backend : app.approvalModalBackend = some card.backend
  selected : app.pendingApproval = some card

/-- The state shows the gate. -/
def Shows (app : AppState) : Gate → Prop
  | .closed => app.modal = .none
  | .lock => app.modal = .confirmForceLock ∧ app.eventLogFilterInput = none
  | .approve card => OpenOn app card .confirmApprove
  | .typing card typed => OpenOn app card .enterRejectReason ∧ app.rejectionReason = typed
  | .reject card reason => OpenOn app card .confirmReject ∧ app.rejectionReason = reason

/-- What the operator navigates. -/
def AppState.surroundings (app : AppState) :=
  (app.screen, app.lease, app.eventLogFilterTaskId, app.eventLogFilterEventType,
    app.eventLogFilterCohort, app.eventLogFilterInput, app.eventLogFilterBuffer,
    app.eventLogScroll, app.inboxFocus, app.inboxScroll)

/-- Neither the force-lock nor a decision. -/
def Effect.harmless : Effect → Bool
  | .forceLock => false
  | .decideApproval _ _ _ _ => false
  | _ => true

/-- A step does what the gate allows, and nothing else. -/
structure Follows (gate : Gate) (app : AppState) (next : Step) : Prop where
  harmless : gate = .closed → ∀ effect ∈ (step app next).2, effect.harmless = true
  only : gate ≠ .closed → (step app next).2 = gate.effects next
  still : gate ≠ .closed → (step app next).1.surroundings = app.surroundings
  shows : Shows (step app next).1 (gate.next app next)

/-- No key comes with Shift where the text of a rejection is typed, or as the `Y` that confirms. -/
def Unshifted (app : AppState) : Step → Prop
  | .key key _ => key.modifiers = shifted →
    (app.modal = .enterRejectReason → ∀ ch, key.code = .char ch → isControl ch = true) ∧
      (app.modal ≠ .none → app.modal ≠ .enterRejectReason → key.code ≠ .char 'Y')
  | _ => True

section Steps

variable {app : AppState} {card : ApprovalCard} {modal : Modal} {approvals : List ApprovalCard}

theorem findIdx_of_mem (hnodup : (approvals.map (·.id)).Nodup) (h : card ∈ approvals) :
    ∃ i, approvals.findIdx? (·.id = card.id) = some i ∧ approvals[i]? = some card := by
  have hany : approvals.any (fun other => decide (other.id = card.id)) = true :=
    List.any_eq_true.2 ⟨card, h, decide_eq_true rfl⟩
  obtain ⟨i, hfind⟩ := Option.isSome_iff_exists.1 (List.findIdx?_isSome.trans hany)
  refine ⟨i, hfind, ?_⟩
  obtain ⟨hlt, hid, -⟩ := List.findIdx?_eq_some_iff_getElem.1 hfind
  rw [List.getElem?_eq_getElem hlt]
  exact congrArg some (List.inj_on_of_nodup_map hnodup (List.getElem_mem hlt) h
    (of_decide_eq_true hid))

theorem modal_active (h : OpenOn app card modal)
    (hmodal : modal = .confirmApprove ∨ modal = .enterRejectReason ∨ modal = .confirmReject) :
    app.approvalModalActive = true := by
  unfold AppState.approvalModalActive
  rw [h.modal]
  rcases hmodal with rfl | rfl | rfl <;> rfl

/-- **A refresh** leaves a flow open on its card, or closes it. -/
theorem replaceInbox_open (hnodup : (approvals.map (·.id)).Nodup) (h : OpenOn app card modal)
    (hmodal : modal = .confirmApprove ∨ modal = .enterRejectReason ∨ modal = .confirmReject) :
    (if card ∈ approvals then OpenOn (app.replaceInbox approvals) card modal ∧
        (app.replaceInbox approvals).rejectionReason = app.rejectionReason
      else (app.replaceInbox approvals).modal = .none) ∧
      (app.replaceInbox approvals).surroundings = app.surroundings := by
  have hactive := modal_active h hmodal
  have hany : (approvals.any fun other =>
      other.id = card.id && some other.backend = app.approvalModalBackend) = true ↔
        card ∈ approvals := by
    rw [List.any_eq_true, h.backend]
    constructor
    · rintro ⟨⟨backend, id⟩, hmem, hother⟩
      simp only [Bool.and_eq_true, decide_eq_true_eq, Option.some.injEq] at hother
      obtain ⟨rfl, rfl⟩ := hother
      exact hmem
    · intro hmem
      exact ⟨card, hmem, by simp⟩
  unfold AppState.replaceInbox
  rw [h.id]
  dsimp only
  by_cases hmem : card ∈ approvals
  · rw [if_pos hmem, hactive, hany.2 hmem, if_neg (show ¬ (true && !true) = true by decide)]
    -- the selection goes with the card: no other one has its id
    obtain ⟨i, hfind, hcard⟩ := findIdx_of_mem hnodup hmem
    have hselect : app.reselect approvals = i := by
      unfold AppState.reselect
      rw [h.selected, Option.bind_some, hfind, Option.getD_some]
    refine ⟨⟨⟨h.modal, h.filter, rfl, h.backend, ?_⟩, rfl⟩, rfl⟩
    show approvals[app.reselect approvals]? = some card
    rw [hselect, hcard]
  · have hnone := Bool.eq_false_iff.2 fun hsome => hmem (hany.1 hsome)
    rw [if_neg hmem, hactive, hnone, if_pos (show (true && !false) = true from rfl)]
    exact ⟨rfl, rfl⟩

theorem replaceInbox_surroundings (app : AppState) (approvals : List ApprovalCard) :
    (app.replaceInbox approvals).surroundings = app.surroundings := by
  unfold AppState.replaceInbox
  split
  · rfl
  · split <;> rfl

/-- Outside the approval modals a refresh leaves the modal alone. -/
theorem replaceInbox_modal (approvals : List ApprovalCard)
    (hactive : app.approvalModalActive = false) :
    (app.replaceInbox approvals).modal = app.modal := by
  unfold AppState.replaceInbox
  split
  · rfl
  · rw [hactive, if_neg (by simp)]

theorem inactive (h : app.modal = .none ∨ app.modal = .confirmForceLock) :
    app.approvalModalActive = false := by
  unfold AppState.approvalModalActive
  rcases h with h | h <;> rw [h] <;> rfl

theorem replaceInbox_none (approvals : List ApprovalCard) (h : app.modal = .none) :
    (app.replaceInbox approvals).modal = .none :=
  (replaceInbox_modal approvals (inactive (.inl h))).trans h

/-! ### No flow -/

theorem isEmpty_iff {modifiers : KeyModifiers} : modifiers.isEmpty = true ↔ modifiers = {} :=
  decide_eq_true_iff

theorem handleKey_harmless (app : AppState) (key : KeyEvent) (answer : List ApprovalCard) :
    ∀ effect ∈ (handleKey app key answer).2, effect.harmless = true := by
  unfold handleKey
  intro effect heffect
  dsimp only at heffect
  split at heffect <;> repeat' split at heffect
  all_goals
    simp only [List.not_mem_nil, List.mem_singleton] at heffect
  all_goals
    subst heffect
    rfl

@[simp] theorem setFilter_modal (app : AppState) (field : EventLogFilterField)
    (value : List Char) : (app.setFilter field value).modal = app.modal := by
  cases field <;> rfl

@[simp] theorem moveInbox_modal (app : AppState) (delta : Int) :
    (moveInbox app delta).modal = app.modal := by
  unfold moveInbox AppState.selectApproval
  split
  · split <;> rfl
  · rfl

theorem armApproval_none (modal : Modal) (hp : app.pendingApproval = none) :
    app.armApproval modal = app := by
  unfold AppState.armApproval
  rw [hp]

/-- A key that arms nothing opens nothing. -/
theorem handleKey_modal {key : KeyEvent} (answer : List ApprovalCard) (h : app.modal = .none)
    (hx : key ≠ ⟨.char 'x', {}⟩)
    (hcard : ∀ card, app.screen = .decisionInbox → app.pendingApproval = some card →
      key ≠ ⟨.char 'a', {}⟩ ∧ key ≠ ⟨.char 'd', {}⟩) :
    (handleKey app key answer).1.modal = .none := by
  obtain ⟨code, modifiers⟩ := key
  unfold handleKey
  dsimp only
  split <;> repeat' split
  -- every branch but the three that arm leaves the modal closed
  all_goals first
    | exact h
    | exact replaceInbox_none answer h
    | exact (moveInbox_modal app _).trans h
    | exact (setFilter_modal app _ _).trans h
    | skip
  case h_9.isTrue hplain =>
    rw [isEmpty_iff.1 hplain] at hx
    exact absurd rfl hx
  case h_10.isTrue hplain =>
    rw [Bool.and_eq_true, isEmpty_iff, decide_eq_true_iff] at hplain
    obtain ⟨rfl, hscreen⟩ := hplain
    cases hp : app.pendingApproval with
    | none => exact (congrArg AppState.modal (armApproval_none _ hp)).trans h
    | some card => exact absurd rfl (hcard card hscreen hp).1
  case h_11.isTrue hplain =>
    rw [Bool.and_eq_true, isEmpty_iff, decide_eq_true_iff] at hplain
    obtain ⟨rfl, hscreen⟩ := hplain
    cases hp : app.pendingApproval with
    | none => exact (congrArg AppState.modal (armApproval_none _ hp)).trans h
    | some card => exact absurd rfl (hcard card hscreen hp).2

theorem filterKey_modal (app : AppState) (key : KeyEvent) :
    (handleEventLogFilterKey app key).modal = app.modal := by
  unfold handleEventLogFilterKey AppState.commitEventLogFilter AppState.popEventLogFilterChar
    AppState.pushEventLogFilterChar
  split <;> repeat' split
  all_goals first
    | rfl
    | exact setFilter_modal app _ _

theorem armApproval_open (modal : Modal) (hfilter : app.eventLogFilterInput = none)
    (hp : app.pendingApproval = some card) : OpenOn (app.armApproval modal) card modal ∧
      (app.armApproval modal).rejectionReason = [] := by
  unfold AppState.armApproval
  rw [hp]
  exact ⟨⟨rfl, hfilter, rfl, rfl, hp⟩, rfl⟩

/-- A key pressed outside every flow arms what `armed` says. -/
theorem handleKey_armed (key : KeyEvent) (answer : List ApprovalCard) (h : app.modal = .none)
    (hfilter : app.eventLogFilterInput = none) :
    Shows (handleKey app key answer).1 (armed app key) := by
  unfold armed
  rw [hfilter, if_neg (by simp)]
  by_cases hx : key = ⟨.char 'x', {}⟩
  · subst hx
    exact ⟨rfl, hfilter⟩
  rw [if_neg hx]
  by_cases hscreen : app.screen = .decisionInbox
  · rw [if_pos hscreen]
    cases hp : app.pendingApproval with
    | none =>
      exact handleKey_modal answer h hx fun card _ hcard => by
        rw [hp] at hcard
        cases hcard
    | some card =>
      dsimp only
      by_cases ha : key = ⟨.char 'a', {}⟩
      · subst ha
        have harm : handleKey app ⟨.char 'a', {}⟩ answer = (app.armApprove, []) := by
          simp [handleKey, KeyModifiers.isEmpty, hscreen]
        rw [if_pos rfl, harm]
        exact (armApproval_open .confirmApprove hfilter hp).1
      · by_cases hd : key = ⟨.char 'd', {}⟩
        · subst hd
          have harm : handleKey app ⟨.char 'd', {}⟩ answer = (app.armReject, []) := by
            simp [handleKey, KeyModifiers.isEmpty, hscreen]
          rw [if_neg ha, if_pos rfl, harm]
          exact armApproval_open .enterRejectReason hfilter hp
        · rw [if_neg ha, if_neg hd]
          exact handleKey_modal answer h hx fun _ _ _ => ⟨ha, hd⟩
  · rw [if_neg hscreen]
    exact handleKey_modal answer h hx fun _ hinbox => absurd hinbox hscreen

/-! ### The step -/

theorem step_modal {key : KeyEvent} {answer : List ApprovalCard} (h : app.modal ≠ .none)
    (hfilter : app.eventLogFilterInput = none) :
    step app (.key key answer) = handleModalKey app key answer := by
  unfold step
  dsimp only
  rw [hfilter, if_neg (by simp), if_pos h]

theorem confirms_plain {key : KeyEvent} (hy : key.modifiers = shifted → key.code ≠ .char 'Y') :
    isPlainConfirmation key = confirms key := by
  rw [Bool.eq_iff_iff]
  unfold isPlainConfirmation confirms KeyModifiers.isEmpty
  simp only [Bool.and_eq_true, Bool.or_eq_true, decide_eq_true_eq]
  tauto

/-- A key in a confirmation decides on its card, or dismisses. -/
theorem confirm_key (key : KeyEvent) (answer : List ApprovalCard) (h : OpenOn app card modal)
    (hmodal : modal = .confirmApprove ∨ modal = .confirmReject) :
    handleModalKey app key answer =
      if isPlainConfirmation key then
        (AppState.replaceInbox { app with
            modal := .none, approvalModalId := none, approvalModalBackend := none } answer,
          [.decideApproval card.id card.backend
            (if modal = .confirmReject then .reject else .approve)
            (if modal = .confirmReject then some app.rejectionReason else none)])
      else (app.dismissModal, []) := by
  have htake : app.takeApprovalConfirmation =
      (some ⟨card.id, card.backend, if modal = .confirmReject then .reject else .approve,
        if modal = .confirmReject then some app.rejectionReason else none⟩,
        { app with modal := .none, approvalModalId := none, approvalModalBackend := none }) := by
    unfold AppState.takeApprovalConfirmation
    rw [h.modal, h.id, h.backend, h.selected]
    rcases hmodal with rfl | rfl <;> simp
  unfold handleModalKey
  rw [h.modal]
  rcases hmodal with rfl | rfl
  all_goals
    dsimp only
    rw [htake]

theorem follows_refresh {gate : Gate} (hdistinct : (approvals.map (·.id)).Nodup)
    (h : Shows app gate) : Follows gate app (.refresh approvals) where
  harmless _ _ heffect := by cases heffect
  only _ := rfl
  still _ := replaceInbox_surroundings app approvals
  shows := by
    show Shows (app.replaceInbox approvals) (gate.refreshed approvals)
    cases gate with
    | closed => exact replaceInbox_none approvals h
    | lock =>
      have hsame := replaceInbox_surroundings app approvals
      simp only [AppState.surroundings, Prod.mk.injEq] at hsame
      exact ⟨(replaceInbox_modal approvals (inactive (.inr h.1))).trans h.1,
        hsame.2.2.2.2.2.1.trans h.2⟩
    | approve card =>
      have hopen := (replaceInbox_open hdistinct h (.inl rfl)).1
      dsimp only [Gate.refreshed]
      split at hopen <;> rename_i hmem
      · rw [if_pos hmem]
        exact hopen.1
      · rw [if_neg hmem]
        exact hopen
    | typing card typed =>
      have hopen := (replaceInbox_open hdistinct h.1 (.inr (.inl rfl))).1
      dsimp only [Gate.refreshed]
      split at hopen <;> rename_i hmem
      · rw [if_pos hmem]
        exact ⟨hopen.1, hopen.2.trans h.2⟩
      · rw [if_neg hmem]
        exact hopen
    | reject card reason =>
      have hopen := (replaceInbox_open hdistinct h.1 (.inr (.inr rfl))).1
      dsimp only [Gate.refreshed]
      split at hopen <;> rename_i hmem
      · rw [if_pos hmem]
        exact ⟨hopen.1, hopen.2.trans h.2⟩
      · rw [if_neg hmem]
        exact hopen

theorem OpenOn.journal (h : OpenOn app card modal) (batchId : Option String) :
    OpenOn { app with batchId } card modal :=
  ⟨h.modal, h.filter, h.id, h.backend, h.selected⟩

theorem follows_journal {gate : Gate} (batchId : Option String) (h : Shows app gate) :
    Follows gate app (.journal batchId) where
  harmless _ _ heffect := by cases heffect
  only _ := rfl
  still _ := rfl
  shows := by
    cases gate with
    | closed => exact h
    | lock => exact h
    | approve card => exact h.journal batchId
    | typing card typed => exact ⟨h.1.journal batchId, h.2⟩
    | reject card reason => exact ⟨h.1.journal batchId, h.2⟩

theorem follows_closed (key : KeyEvent) (answer : List ApprovalCard) (h : app.modal = .none) :
    Follows .closed app (.key key answer) where
  harmless _ effect heffect := by
    unfold step at heffect
    dsimp only at heffect
    split at heffect
    · cases heffect
    · rw [if_neg (show ¬ app.modal ≠ .none from not_not_intro h)] at heffect
      exact handleKey_harmless app key answer effect heffect
  only hopen := absurd rfl hopen
  still hopen := absurd rfl hopen
  shows := by
    show Shows (step app (.key key answer)).1 (armed app key)
    unfold step
    dsimp only
    by_cases hfilter : app.eventLogFilterInput.isSome = true
    · unfold armed
      rw [if_pos hfilter, if_pos hfilter]
      exact (filterKey_modal app key).trans h
    · rw [if_neg hfilter, if_neg (show ¬ app.modal ≠ .none from not_not_intro h)]
      exact handleKey_armed key answer h (Option.not_isSome_iff_eq_none.1 hfilter)

/-- The `Y` that Unshifted forbids in a confirmation. -/
theorem unshifted_confirm {key : KeyEvent} {answer : List ApprovalCard}
    (hplain : Unshifted app (.key key answer)) (h : app.modal ≠ .none)
    (htext : app.modal ≠ .enterRejectReason) : isPlainConfirmation key = confirms key :=
  confirms_plain fun hshift => (hplain hshift).2 h htext

/-- A confirmation modal closes on every key, and what it confirms is all that happens. -/
theorem follows_answer {gate : Gate} {key : KeyEvent} {answer : List ApprovalCard}
    {done : AppState} {effect : Effect}
    (hstep : step app (.key key answer) =
      if confirms key then (done, [effect]) else (app.dismissModal, []))
    (hopen : gate ≠ .closed) (hnext : gate.next app (.key key answer) = .closed)
    (heffects : gate.effects (.key key answer) = if confirms key then [effect] else [])
    (hdone : done.modal = .none) (hsame : done.surroundings = app.surroundings) :
    Follows gate app (.key key answer) where
  harmless hclosed := absurd hclosed hopen
  only _ := by
    rw [hstep, heffects]
    split <;> rfl
  still _ := by
    rw [hstep]
    split
    · exact hsame
    · rfl
  shows := by
    rw [hstep, hnext]
    split
    · exact hdone
    · rfl

theorem follows_lock {key : KeyEvent} {answer : List ApprovalCard} (h : Shows app .lock)
    (hplain : Unshifted app (.key key answer)) : Follows .lock app (.key key answer) := by
  obtain ⟨hmodal, hfilter⟩ := h
  have hsome : app.modal ≠ .none := by rw [hmodal]; decide
  have hkey := unshifted_confirm hplain hsome (by rw [hmodal]; decide)
  have hstep : step app (.key key answer) =
      if confirms key then ({ app with modal := .none }, [.forceLock])
      else (app.dismissModal, []) := by
    rw [step_modal hsome hfilter]
    unfold handleModalKey AppState.takeForceLockConfirmation
    rw [hmodal, hkey]
    rfl
  exact follows_answer hstep Gate.noConfusion rfl rfl rfl rfl

theorem follows_approve {key : KeyEvent} {answer : List ApprovalCard}
    (h : Shows app (.approve card)) (hplain : Unshifted app (.key key answer)) :
    Follows (.approve card) app (.key key answer) := by
  have hmodal : app.modal = .confirmApprove := OpenOn.modal h
  have hsome : app.modal ≠ .none := by rw [hmodal]; decide
  have hkey := unshifted_confirm hplain hsome (by rw [hmodal]; decide)
  have hstep : step app (.key key answer) = handleModalKey app key answer :=
    step_modal hsome (OpenOn.filter h)
  rw [confirm_key key answer h (.inl rfl), hkey] at hstep
  exact follows_answer hstep Gate.noConfusion rfl rfl (replaceInbox_none answer rfl)
    (replaceInbox_surroundings _ answer)

theorem follows_reject {key : KeyEvent} {answer : List ApprovalCard} {reason : List Char}
    (h : Shows app (.reject card reason)) (hplain : Unshifted app (.key key answer)) :
    Follows (.reject card reason) app (.key key answer) := by
  obtain ⟨hopen, hreason⟩ := h
  have hsome : app.modal ≠ .none := by rw [hopen.modal]; decide
  have hkey := unshifted_confirm hplain hsome (by rw [hopen.modal]; decide)
  have hstep : step app (.key key answer) = handleModalKey app key answer :=
    step_modal hsome hopen.filter
  rw [confirm_key key answer hopen (.inr rfl), hkey, hreason] at hstep
  exact follows_answer hstep Gate.noConfusion rfl rfl (replaceInbox_none answer rfl)
    (replaceInbox_surroundings _ answer)

theorem edit_other (typed : List Char) {key : KeyEvent} (hback : key ≠ ⟨.backspace, {}⟩)
    (hprint : printed key = none) : edit typed key = typed := by
  unfold edit
  rw [if_neg hback, hprint]
  exact List.append_nil typed

theorem printed_char {modifiers : KeyModifiers} {ch : Char}
    (h : modifiers = {} ∨ modifiers = shifted → isControl ch = true) :
    printed ⟨.char ch, modifiers⟩ = none := by
  unfold printed
  dsimp only
  rw [if_neg]
  simp only [Bool.and_eq_true, Bool.or_eq_true, decide_eq_true_eq, Bool.not_eq_true']
  rintro ⟨hplain, hprintable⟩
  rw [h hplain] at hprintable
  cases hprintable

/-- A key in the reason's editor: Esc, a plain Enter, or an edit of the text. -/
theorem typing_key {key : KeyEvent} {answer : List ApprovalCard}
    (h : OpenOn app card .enterRejectReason) (hplain : Unshifted app (.key key answer)) :
    handleModalKey app key answer =
      (if key.code = .esc then app.dismissModal
        else if key = ⟨.enter, {}⟩ then app.confirmRejectionReason
        else { app with rejectionReason := edit app.rejectionReason key }, []) := by
  have hmodal := h.modal
  have hshift := fun hshift => (hplain hshift).1 hmodal
  obtain ⟨code, modifiers⟩ := key
  have hsame : edit app.rejectionReason ⟨code, modifiers⟩ = app.rejectionReason →
      { app with rejectionReason := edit app.rejectionReason ⟨code, modifiers⟩ } = app := by
    intro hedit
    rw [hedit]
  have hother : code ≠ .esc → (⟨code, modifiers⟩ : KeyEvent) ≠ ⟨.enter, {}⟩ →
      (if code = .esc then app.dismissModal
        else if (⟨code, modifiers⟩ : KeyEvent) = ⟨.enter, {}⟩ then app.confirmRejectionReason
        else { app with rejectionReason := edit app.rejectionReason ⟨code, modifiers⟩ },
        ([] : List Effect)) =
      ({ app with rejectionReason := edit app.rejectionReason ⟨code, modifiers⟩ }, []) := by
    intro hesc henter
    rw [if_neg hesc, if_neg henter]
  -- a guard that fails leaves the text, and so does the edit by a key that prints nothing
  have hidle : ∀ ok : Bool, edit app.rejectionReason ⟨code, modifiers⟩ = app.rejectionReason →
      ok = false → ∀ changed : AppState,
        ((if ok = true then changed else app), ([] : List Effect)) =
        ({ app with rejectionReason := edit app.rejectionReason ⟨code, modifiers⟩ }, []) := by
    rintro ok hedit rfl changed
    rw [hsame hedit]
    rfl
  have hempty : modifiers ≠ {} → modifiers.isEmpty = false :=
    fun hne => Bool.eq_false_iff.2 fun hnone => hne (isEmpty_iff.1 hnone)
  cases code with
  | esc =>
    unfold handleModalKey
    rw [hmodal]
    rfl
  | backspace =>
    refine Eq.trans ?_ (hother (by simp) (by simp)).symm
    conv_lhs => unfold handleModalKey; rw [hmodal]
    by_cases hnone : modifiers = {}
    · subst hnone
      show (app.popRejectionChar, []) = _
      rw [AppState.popRejectionChar, if_pos hmodal]
      rfl
    · exact hidle _ (edit_other _ (by simp [hnone]) rfl) (hempty hnone) _
  | enter =>
    by_cases hnone : modifiers = {}
    · subst hnone
      unfold handleModalKey
      rw [hmodal]
      rfl
    · refine Eq.trans ?_ (hother (by simp) (by simp [hnone])).symm
      conv_lhs => unfold handleModalKey; rw [hmodal]
      exact hidle _ (edit_other _ (by simp) rfl) (hempty hnone) _
  | char ch =>
    refine Eq.trans ?_ (hother (by simp) (by simp)).symm
    conv_lhs => unfold handleModalKey; rw [hmodal]
    by_cases hnone : modifiers = {}
    · subst hnone
      show (app.pushRejectionChar ch, []) = _
      rw [AppState.pushRejectionChar]
      by_cases hcontrol : isControl ch = true
      · refine hidle _ (edit_other _ (by simp) (printed_char fun _ => hcontrol)) ?_ _
        rw [hcontrol]
        exact Bool.and_false _
      · have hprint : printed ⟨.char ch, {}⟩ = some ch := by simp [printed, hcontrol]
        rw [if_pos (by simp [hmodal, hcontrol]), edit, if_neg (by simp), hprint]
        rfl
    · refine hidle _ (edit_other _ (by simp) (printed_char ?_)) (hempty hnone) _
      rintro (hplain | hshifted)
      · exact absurd hplain hnone
      · exact hshift hshifted ch rfl
  | _ =>
    refine Eq.trans ?_ (hother (by simp) (by simp)).symm
    conv_lhs => unfold handleModalKey; rw [hmodal]
    exact congrArg (·, []) (hsame (edit_other _ (by simp) rfl)).symm

theorem follows_typing {key : KeyEvent} {answer : List ApprovalCard} {typed : List Char}
    (h : Shows app (.typing card typed)) (hplain : Unshifted app (.key key answer)) :
    Follows (.typing card typed) app (.key key answer) := by
  obtain ⟨hopen, rfl⟩ := h
  have hstep : step app (.key key answer) = handleModalKey app key answer :=
    step_modal (by rw [hopen.modal]; decide) hopen.filter
  rw [typing_key hopen hplain] at hstep
  refine ⟨fun hclosed => Gate.noConfusion hclosed, fun _ => ?_, fun _ => ?_, ?_⟩
  all_goals
    rw [hstep]
  · show [] = if confirms key then [] else []
    split <;> rfl
  · dsimp only
    unfold AppState.confirmRejectionReason
    split
    · rfl
    · split
      · split <;> rfl
      · rfl
  · show Shows _ (if key.code = .esc then .closed
      else if key = ⟨.enter, {}⟩ then
        if trim app.rejectionReason = [] then .typing card app.rejectionReason
        else .reject card (trim app.rejectionReason)
      else .typing card (edit app.rejectionReason key))
    dsimp only
    by_cases hesc : key.code = .esc
    · rw [if_pos hesc, if_pos hesc]
      rfl
    rw [if_neg hesc, if_neg hesc]
    by_cases henter : key = ⟨.enter, {}⟩
    · rw [if_pos henter, if_pos henter]
      unfold AppState.confirmRejectionReason
      by_cases hblank : trim app.rejectionReason = []
      · rw [if_pos hblank, if_neg (by simp [hblank])]
        exact ⟨hopen, rfl⟩
      · rw [if_neg hblank, if_pos (by simp [hblank, hopen.modal])]
        exact ⟨⟨rfl, hopen.filter, hopen.id, hopen.backend, hopen.selected⟩, rfl⟩
    -- any other key edits the text and moves neither the modal nor the selection
    · rw [if_neg henter, if_neg henter]
      exact ⟨⟨hopen.modal, hopen.filter, hopen.id, hopen.backend, hopen.selected⟩, rfl⟩

/-- **A step** follows the gate. -/
theorem follows_step {gate : Gate} (next : Step) (h : Shows app gate)
    (hdistinct : (next.approvals.map (·.id)).Nodup) (hplain : Unshifted app next) :
    Follows gate app next := by
  cases next with
  | refresh approvals => exact follows_refresh hdistinct h
  | journal batchId => exact follows_journal batchId h
  | key key answer =>
    cases gate with
    | closed => exact follows_closed key answer h
    | lock => exact follows_lock h hplain
    | approve card => exact follows_approve h hplain
    | typing card typed => exact follows_typing h hplain
    | reject card reason => exact follows_reject h hplain

end Steps

end Orchestrail.Console
