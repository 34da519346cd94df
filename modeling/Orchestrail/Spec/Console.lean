import Orchestrail.Spec.Approval
import Orchestrail.Spec.Contract

/-!
# The keys of the console

The key routers of the console's `main.rs` over the part of `app.rs` they read and write. A step is
a key press or a refresh; a key that makes the console load its inbox gets it as an answer. What a
command does outside is an effect. Notices, the panels that are only drawn and the cards' other
texts are left out.
-/

namespace Orchestrail.Console

open Text

structure KeyModifiers where
  shift : Bool := false
  control : Bool := false
  alt : Bool := false
  super : Bool := false
  hyper : Bool := false
  metaKey : Bool := false
  deriving DecidableEq

def KeyModifiers.isEmpty (modifiers : KeyModifiers) : Bool := decide (modifiers = {})

inductive KeyCode where
  | char (ch : Char)
  | enter | esc | backspace | tab | left | right | up | down | pageUp | pageDown | other
  deriving DecidableEq

structure KeyEvent where
  code : KeyCode
  modifiers : KeyModifiers := {}
  deriving DecidableEq

inductive Screen where
  | overview | decisionInbox | eventLog
  deriving DecidableEq

inductive InboxPanel where
  | approvals | escalated | quarantined | blocked
  deriving DecidableEq

inductive EventLogFilterField where
  | taskId | eventType | cohort
  deriving DecidableEq

inductive Modal where
  | none | confirmForceLock | confirmApprove | enterRejectReason | confirmReject
  deriving DecidableEq

inductive ApprovalBackend where
  | native | legacy
  deriving DecidableEq

structure ApprovalCard where
  backend : ApprovalBackend
  id : String
  deriving DecidableEq

structure AppState where
  screen : Screen := .overview
  batchId : Option String := none
  lease : Bool := false
  eventLogFilterTaskId : List Char := []
  eventLogFilterEventType : List Char := []
  eventLogFilterCohort : List Char := []
  eventLogFilterInput : Option EventLogFilterField := none
  eventLogFilterBuffer : List Char := []
  eventLogScroll : Int := 0
  inboxFocus : InboxPanel := .approvals
  inboxScroll : InboxPanel → Int := fun _ => 0
  approvals : List ApprovalCard := []
  approvalSelected : Nat := 0
  modal : Modal := .none
  approvalModalId : Option String := none
  approvalModalBackend : Option ApprovalBackend := none
  rejectionReason : List Char := []

/-- What the console does outside. -/
inductive Effect where
  | pause | resume | leaseStatus | reload | quit | forceLock
  | decideApproval (id : String) (backend : ApprovalBackend) (decision : ApprovalDecision)
      (rejectionReason : Option (List Char))
  deriving DecidableEq

structure ConfirmedApproval where
  id : String
  backend : ApprovalBackend
  decision : ApprovalDecision
  rejectionReason : Option (List Char)
  deriving DecidableEq

/-- A scroll offset of 16 bits. -/
def clampScroll (offset : Int) : Int := max 0 (min offset 65535)

namespace AppState

variable (app : AppState)

/-! ## Event log filters -/

def beginEventLogFilter (field : EventLogFilterField) : AppState :=
  { app with
    eventLogFilterBuffer :=
      match field with
      | .taskId => app.eventLogFilterTaskId
      | .eventType => app.eventLogFilterEventType
      | .cohort =>
        if app.eventLogFilterCohort = [] then (app.batchId.getD "").toList
        else app.eventLogFilterCohort
    eventLogFilterInput := some field }

def pushEventLogFilterChar (ch : Char) : AppState :=
  if app.eventLogFilterInput.isSome && !isControl ch then
    { app with eventLogFilterBuffer := app.eventLogFilterBuffer ++ [ch] }
  else app

def popEventLogFilterChar : AppState :=
  if app.eventLogFilterInput.isSome then
    { app with eventLogFilterBuffer := app.eventLogFilterBuffer.dropLast }
  else app

def setFilter (field : EventLogFilterField) (value : List Char) : AppState :=
  match field with
  | .taskId => { app with eventLogFilterTaskId := value }
  | .eventType => { app with eventLogFilterEventType := value }
  | .cohort => { app with eventLogFilterCohort := value }

def commitEventLogFilter : AppState :=
  match app.eventLogFilterInput with
  | none => app
  | some field =>
    { app.setFilter field (trim app.eventLogFilterBuffer) with
      eventLogFilterInput := none
      eventLogFilterBuffer := []
      eventLogScroll := 0 }

def cancelEventLogFilter : AppState :=
  { app with eventLogFilterInput := none, eventLogFilterBuffer := [] }

def clearEventLogFilter (field : EventLogFilterField) : AppState :=
  { app.setFilter field [] with eventLogScroll := 0 }

def scrollEventLog (delta : Int) : AppState :=
  { app with eventLogScroll := clampScroll (app.eventLogScroll + delta) }

/-! ## Screens and panels -/

def toggleScreen : AppState :=
  { app with
    screen :=
      match app.screen with
      | .overview => .decisionInbox
      | .decisionInbox => .eventLog
      | .eventLog => .overview }

def focusNextInboxPanel : AppState :=
  { app with
    inboxFocus :=
      match app.inboxFocus with
      | .approvals => .escalated
      | .escalated => .quarantined
      | .quarantined => .blocked
      | .blocked => .approvals }

def focusPrevInboxPanel : AppState :=
  { app with
    inboxFocus :=
      match app.inboxFocus with
      | .approvals => .blocked
      | .escalated => .approvals
      | .quarantined => .escalated
      | .blocked => .quarantined }

def scrollInbox (delta : Int) : AppState :=
  { app with
    inboxScroll := fun panel =>
      if panel = app.inboxFocus then clampScroll (app.inboxScroll panel + delta)
      else app.inboxScroll panel }

/-! ## Approvals -/

def pendingApproval : Option ApprovalCard := app.approvals[app.approvalSelected]?

def selectApproval (delta : Int) : AppState :=
  if app.approvals = [] then { app with approvalSelected := 0 }
  else
    { app with
      approvalSelected :=
        (max 0 (min (app.approvalSelected + delta) (app.approvals.length - 1 : Nat))).toNat }

def dismissModal : AppState :=
  { app with
    modal := .none
    approvalModalId := none
    approvalModalBackend := none
    rejectionReason := [] }

def approvalModalActive : Bool :=
  app.modal = .confirmApprove || app.modal = .enterRejectReason || app.modal = .confirmReject

/-- The place of the selected card in a new list, or the old place within it. -/
def reselect (approvals : List ApprovalCard) : Nat :=
  (app.pendingApproval.bind fun card => approvals.findIdx? (·.id = card.id)).getD
    (min app.approvalSelected (approvals.length - 1))

def replaceInbox (approvals : List ApprovalCard) : AppState :=
  let next := { app with approvals, approvalSelected := app.reselect approvals }
  match app.approvalModalId with
  | none => next
  | some captured =>
    if app.approvalModalActive && !approvals.any fun card =>
        card.id = captured && some card.backend = app.approvalModalBackend then
      next.dismissModal
    else next

/-- Open a modal on the selected card. -/
def armApproval (modal : Modal) : AppState :=
  match app.pendingApproval with
  | none => app
  | some card =>
    { app with
      approvalModalId := some card.id
      approvalModalBackend := some card.backend
      rejectionReason := []
      modal }

def armApprove : AppState := app.armApproval .confirmApprove
def armReject : AppState := app.armApproval .enterRejectReason

def pushRejectionChar (ch : Char) : AppState :=
  if app.modal = .enterRejectReason && !isControl ch then
    { app with rejectionReason := app.rejectionReason ++ [ch] }
  else app

def popRejectionChar : AppState :=
  if app.modal = .enterRejectReason then
    { app with rejectionReason := app.rejectionReason.dropLast }
  else app

def confirmRejectionReason : AppState :=
  if app.modal = .enterRejectReason && trim app.rejectionReason ≠ [] then
    { app with rejectionReason := trim app.rejectionReason, modal := .confirmReject }
  else app

def takeApprovalConfirmation : Option ConfirmedApproval × AppState :=
  let decision := match app.modal with
    | .confirmApprove => some ApprovalDecision.approve
    | .confirmReject => some .reject
    | _ => none
  match decision with
  | none => (none, app)
  | some decision =>
    match app.approvalModalId, app.approvalModalBackend, app.pendingApproval with
    | some id, some backend, some card =>
      if card.id = id ∧ card.backend = backend then
        (some ⟨id, backend, decision,
          if decision = .reject then some app.rejectionReason else none⟩,
          { app with modal := .none, approvalModalId := none, approvalModalBackend := none })
      else (none, app.dismissModal)
    | _, _, _ => (none, app.dismissModal)

def armForceLock : AppState :=
  { app with approvalModalId := none, approvalModalBackend := none, modal := .confirmForceLock }

def takeForceLockConfirmation : Bool × AppState :=
  if app.modal = .confirmForceLock then (true, { app with modal := .none }) else (false, app)

end AppState

/-! ## The routers -/

/-- A move up or down in the inbox. -/
def moveInbox (app : AppState) (delta : Int) : AppState :=
  if app.inboxFocus = .approvals then app.selectApproval delta else app.scrollInbox delta

/-- Keys while no modal is open and no filter is edited. -/
def handleKey (app : AppState) (key : KeyEvent) (answer : List ApprovalCard) :
    AppState × List Effect :=
  let plain := key.modifiers.isEmpty
  let control := key.modifiers.control
  let inbox := app.screen = .decisionInbox
  let log := app.screen = .eventLog
  match key.code with
  | .char 'c' =>
    if control && log then (app.clearEventLogFilter .cohort, [])
    else if control then (app, [.quit])
    else if plain && log then (app.beginEventLogFilter .cohort, [])
    else (app, [])
  | .char 'q' => if plain then (app, [.quit]) else (app, [])
  | .esc => if app.lease then ({ app with lease := false }, []) else (app, [.quit])
  | .tab => if plain then (app.toggleScreen, []) else (app, [])
  | .char 'r' => if plain then (app.replaceInbox answer, [.reload]) else (app, [])
  | .char 'p' => if plain then (app.replaceInbox answer, [.pause]) else (app, [])
  | .char 'u' =>
    if plain then (app.replaceInbox answer, [.resume])
    else if control && log then (app.clearEventLogFilter .taskId, [])
    else (app, [])
  | .char 's' => if plain then ({ app with lease := true }, [.leaseStatus]) else (app, [])
  | .char 'x' => if plain then (app.armForceLock, []) else (app, [])
  | .char 'a' => if plain && inbox then (app.armApprove, []) else (app, [])
  | .char 'd' => if plain && inbox then (app.armReject, []) else (app, [])
  | .left => if inbox then (app.focusPrevInboxPanel, []) else (app, [])
  | .char 'h' => if plain && inbox then (app.focusPrevInboxPanel, []) else (app, [])
  | .right => if inbox then (app.focusNextInboxPanel, []) else (app, [])
  | .char 'l' => if plain && inbox then (app.focusNextInboxPanel, []) else (app, [])
  | .up =>
    if inbox then (moveInbox app (-1), [])
    else if log then (app.scrollEventLog (-1), [])
    else (app, [])
  | .char 'k' =>
    if plain && inbox then (moveInbox app (-1), [])
    else if plain && log then (app.scrollEventLog (-1), [])
    else (app, [])
  | .down =>
    if inbox then (moveInbox app 1, [])
    else if log then (app.scrollEventLog 1, [])
    else (app, [])
  | .char 'j' =>
    if plain && inbox then (moveInbox app 1, [])
    else if plain && log then (app.scrollEventLog 1, [])
    else (app, [])
  | .pageUp =>
    if inbox then (moveInbox app (-10), [])
    else if log then (app.scrollEventLog (-20), [])
    else (app, [])
  | .pageDown =>
    if inbox then (moveInbox app 10, [])
    else if log then (app.scrollEventLog 20, [])
    else (app, [])
  | .char 't' => if plain && log then (app.beginEventLogFilter .taskId, []) else (app, [])
  | .char 'y' =>
    if plain && log then (app.beginEventLogFilter .eventType, [])
    else if control && log then (app.clearEventLogFilter .eventType, [])
    else (app, [])
  | _ => (app, [])

def handleEventLogFilterKey (app : AppState) (key : KeyEvent) : AppState :=
  match key.code with
  | .esc => app.cancelEventLogFilter
  | .enter => if key.modifiers.isEmpty then app.commitEventLogFilter else app
  | .backspace => if key.modifiers.isEmpty then app.popEventLogFilterChar else app
  | .char ch => if key.modifiers.isEmpty then app.pushEventLogFilterChar ch else app
  | _ => app

def isPlainConfirmation (key : KeyEvent) : Bool :=
  key.modifiers.isEmpty &&
    (key.code = .char 'y' || key.code = .char 'Y' || key.code = .enter)

def handleModalKey (app : AppState) (key : KeyEvent) (answer : List ApprovalCard) :
    AppState × List Effect :=
  match app.modal with
  | .enterRejectReason =>
    match key.code with
    | .esc => (app.dismissModal, [])
    | .backspace => (if key.modifiers.isEmpty then app.popRejectionChar else app, [])
    | .enter => (if key.modifiers.isEmpty then app.confirmRejectionReason else app, [])
    | .char ch => (if key.modifiers.isEmpty then app.pushRejectionChar ch else app, [])
    | _ => (app, [])
  | .confirmApprove | .confirmReject =>
    if isPlainConfirmation key then
      match app.takeApprovalConfirmation with
      | (some action, next) =>
        (next.replaceInbox answer,
          [.decideApproval action.id action.backend action.decision action.rejectionReason])
      | (none, next) => (next, [])
    else (app.dismissModal, [])
  | .confirmForceLock =>
    if isPlainConfirmation key then
      match app.takeForceLockConfirmation with
      | (true, next) => (next, [.forceLock])
      | (false, next) => (next, [])
    else (app.dismissModal, [])
  | .none => (app, [])

/-- A step of the console. -/
inductive Step where
  | refresh (approvals : List ApprovalCard)
  | journal (batchId : Option String)
  | key (key : KeyEvent) (answer : List ApprovalCard)

/-- The lists of pending approvals that a step brings. -/
def Step.approvals : Step → List ApprovalCard
  | refresh approvals => approvals
  | journal _ => []
  | key _ answer => answer

def step (app : AppState) : Step → AppState × List Effect
  | .refresh approvals => (app.replaceInbox approvals, [])
  | .journal batchId => ({ app with batchId }, [])
  | .key key answer =>
    if app.eventLogFilterInput.isSome then (handleEventLogFilterKey app key, [])
    else if app.modal ≠ .none then handleModalKey app key answer
    else handleKey app key answer

/-- The state behind some steps. -/
def run (app : AppState) (steps : List Step) : AppState :=
  steps.foldl (fun app next => (step app next).1) app

end Orchestrail.Console
