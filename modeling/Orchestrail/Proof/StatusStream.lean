import Orchestrail.Proof.Admission
import Orchestrail.Proof.Archive
import Orchestrail.Proof.Approval
import Orchestrail.Proof.RuntimeCalls

/-!
# The status stream

A consumer of the outbox replays the `to` fields of `task.status_changed` to know where every task
stands. The identity of such a record is the task, its review count and the two statuses, without
the batch, and an id that is in the outbox is not appended again. So the stream is faithful to a step
exactly when the step changes no status as an earlier one did (`status_stream`): a task that a
re-anchored publication takes back is merged a second time without a record.
-/

namespace Orchestrail

open Std Table Steps Text

/-! ## The last word of a list -/

section LastOf

variable {α : Type}

/-- What the last entry that says something says; before the first, a task is at work. -/
def lastOf (f : α → Option String) (entries : List α) : String :=
  ((entries.filterMap f).getLast?).getD "в работе"

theorem lastOf_append_none {f : α → Option String} {entries more : List α}
    (h : ∀ e ∈ more, f e = none) : lastOf f (entries ++ more) = lastOf f entries := by
  have hnil : more.filterMap f = [] := List.filterMap_eq_nil_iff.2 h
  unfold lastOf
  rw [List.filterMap_append, hnil, List.append_nil]

theorem lastOf_append_some {f : α → Option String} {entries more : List α} {status : String}
    (hsome : ∃ e ∈ more, f e = some status) (hsame : ∀ e ∈ more, ∀ x, f e = some x → x = status) :
    lastOf f (entries ++ more) = status := by
  obtain ⟨e, he, hfe⟩ := hsome
  have hne : more.filterMap f ≠ [] :=
    List.ne_nil_of_mem (List.mem_filterMap.2 ⟨e, he, hfe⟩)
  unfold lastOf
  rw [List.filterMap_append, List.getLast?_append_of_ne_nil _ hne, List.getLast?_eq_some_getLast hne]
  obtain ⟨e', he', hlast⟩ := List.mem_filterMap.1 (List.getLast_mem hne)
  exact hsame e' he' _ hlast

end LastOf

/-! ## Changes of status -/

/-- One change of the status a task shows, with the review count it is made at. -/
structure Change where
  taskId : String
  cycles : Nat
  from_ : String
  to_ : String
  deriving DecidableEq

namespace Change

/-- The change a command makes, by the states of its task around it. -/
def of (previous current : TaskRuntime) (command : ProcessorCommand) : Change :=
  ⟨current.id, current.reviewCycles, statusBefore previous current command,
    taskStatus current.phase⟩

/-- The identity of the record of a change. -/
def identity (c : Change) : String :=
  eventIdentity .taskStatusChanged none (some c.taskId) s!"{c.taskId}:{c.cycles}:{c.from_}>{c.to_}"

/-- The status of a task, as its change leaves it. -/
def statusTo (id : String) (c : Change) : Option String :=
  if c.taskId = id then some c.to_ else none

/-- A task id, and two statuses that tasks show. -/
structure Legible (c : Change) : Prop where
  task : isTaskId c.taskId = true
  before : ∃ ph, c.from_ = taskStatus ph
  after : ∃ ph, c.to_ = taskStatus ph

end Change

/-- The status a record of the stream gives a task. -/
def Event.statusTo (id : String) (event : Event) : Option String :=
  if event.eventType = .taskStatusChanged ∧ event.taskId = some id then
    match event.payload["to"]? with
    | some (.text status) => some status
    | _ => none
  else none

/-- The record of a change. -/
def statusEvent (eventId : String → String) (occurredAt : String) (c : Change) : Event :=
  eventWithPayload eventId occurredAt .taskStatusChanged none (some c.taskId)
    (((∅ : Payload).insert "from" (.text c.from_)).insert "to" (.text c.to_))
    s!"{c.taskId}:{c.cycles}:{c.from_}>{c.to_}"

/-- The changes of status one command makes. -/
def changesOf (before after : ProcessorState) (command : ProcessorCommand) : List Change :=
  after.tasks.toList.filterMap fun (id, current) =>
    (before.tasks[id]?).bind fun previous =>
      if taskStatus previous.phase = taskStatus current.phase then none
      else some (Change.of previous current command)

theorem mem_changesOf {before after : ProcessorState} {command : ProcessorCommand} {c : Change} :
    c ∈ changesOf before after command ↔
      ∃ (id : String) (t u : TaskRuntime), before.tasks[id]? = some t ∧ after.tasks[id]? = some u ∧
        taskStatus t.phase ≠ taskStatus u.phase ∧ c = Change.of t u command := by
  simp only [changesOf, List.mem_filterMap, ExtTreeMap.mem_toList_iff_getElem?_eq_some, Prod.exists,
    Option.bind_eq_some_iff]
  constructor
  · rintro ⟨id, u, hu, t, ht, h⟩
    split at h
    · cases h
    · rename_i hne
      exact ⟨id, t, u, ht, hu, hne, (Option.some.inj h).symm⟩
  · rintro ⟨id, t, u, ht, hu, hne, rfl⟩
    exact ⟨id, u, hu, t, ht, if_neg hne⟩

/-! ## Identities -/

section Identity

theorem statusBefore_status (t u : TaskRuntime) (command : ProcessorCommand) :
    ∃ ph, statusBefore t u command = taskStatus ph := by
  unfold statusBefore
  split
  · split
    · exact ⟨.reviewing, rfl⟩
    · exact ⟨_, rfl⟩
  · exact ⟨_, rfl⟩

/-- A command that shows its task in review before an escalation finds it at work. -/
theorem statusBefore_eq {t u : TaskRuntime} {command : ProcessorCommand} :
    statusBefore t u command = taskStatus t.phase ∨
      statusBefore t u command = "на ревью" ∧ t.phase = .committing ∧ u.phase = .escalated := by
  unfold statusBefore
  split
  · split
    · rename_i h
      exact .inr ⟨rfl, h.2.1, h.2.2.1⟩
    · exact .inl rfl
  · exact .inl rfl

theorem moved_iff {t u : TaskRuntime} {command : ProcessorCommand} :
    statusBefore t u command ≠ taskStatus u.phase ↔ taskStatus t.phase ≠ taskStatus u.phase := by
  rcases @statusBefore_eq t u command with h | ⟨h, ht, hu⟩
  · rw [h]
  · rw [h, ht, hu]
    decide

theorem taskStatus_no_mark (ph : TaskPhase) : '>' ∉ (taskStatus ph).toList := by
  cases ph <;> decide

theorem taskId_no_mark {id : String} (h : isTaskId id = true) (ch : Char) (hT : ch ≠ 'T')
    (hdash : ch ≠ '-') (hdigit : isAsciiDigit ch = false) : ch ∉ id.toList := by
  obtain ⟨digits, hlist, hdigits⟩ := taskId_spec h
  rw [hlist]
  intro hmem
  rcases List.mem_cons.1 hmem with rfl | hmem
  · exact hT rfl
  rcases List.mem_cons.1 hmem with rfl | hmem
  · exact hdash rfl
  · rw [hdigits ch hmem] at hdigit
    cases hdigit

theorem eventType_no_bar (eventType : EventType) : '|' ∉ eventType.asStr.toList := by
  cases eventType <;> decide

theorem barred_toList (a b c d : String) : s!"{a}|{b}|{c}|{d}".toList =
    a.toList ++ '|' :: (b.toList ++ '|' :: (c.toList ++ '|' :: d.toList)) := by
  have hbar : "|".toList = ['|'] := by decide
  simp only [toString, String.toList_append, hbar, List.append_assoc, List.nil_append,
    List.cons_append]

theorem coordinate_toList (id : String) (cycles : Nat) (from_ to_ : String) :
    s!"{id}:{cycles}:{from_}>{to_}".toList = id.toList ++ ':' :: ((toString cycles).toList ++
      ':' :: (from_.toList ++ '>' :: to_.toList)) := by
  have hcolon : ":".toList = [':'] := by decide
  have hmark : ">".toList = ['>'] := by decide
  generalize toString cycles = n
  simp only [toString, String.toList_append, hcolon, hmark, List.append_assoc, List.nil_append,
    List.cons_append]

theorem versioned_toList (front : String) (version : Nat) :
    ∃ rest, s!"{front}|payload:v{version}".toList = front.toList ++ rest := by
  refine ⟨"|payload:v".toList ++ (toString version).toList, ?_⟩
  generalize toString version = n
  simp only [toString, String.toList_append, List.append_assoc]

/-- An identity begins with its type. -/
theorem eventIdentity_toList (eventType : EventType) (batchId taskId : Option String)
    (coordinate : String) : ∃ rest, (eventIdentity eventType batchId taskId coordinate).toList =
      eventType.asStr.toList ++ '|' :: rest := by
  unfold eventIdentity
  simp only
  generalize batchId.getD "" = batch
  generalize taskId.getD "" = task
  have hfront := barred_toList eventType.asStr batch task coordinate
  split
  · obtain ⟨rest, hrest⟩ :=
      versioned_toList s!"{eventType.asStr}|{batch}|{task}|{coordinate}" eventType.payloadVersion
    exact ⟨_, by rw [hrest, hfront, List.append_assoc, List.cons_append]⟩
  · exact ⟨_, hfront⟩

theorem Change.identity_toList (c : Change) : c.identity.toList =
    EventType.taskStatusChanged.asStr.toList ++ '|' :: ("".toList ++ '|' :: (c.taskId.toList ++ '|' ::
      (c.taskId.toList ++ ':' :: ((toString c.cycles).toList ++ ':' ::
        (c.from_.toList ++ '>' :: c.to_.toList))))) := by
  rw [← coordinate_toList]
  exact barred_toList EventType.taskStatusChanged.asStr "" c.taskId _

theorem toString_toList (n : Nat) : (toString n).toList = Nat.toDigits 10 n := by
  simp [toString, Nat.repr]

theorem toString_no_colon (n : Nat) : ':' ∉ (toString n).toList := by
  intro hmem
  rw [toString_toList] at hmem
  have hdigit := Nat.isDigit_of_mem_toDigits (by omega) (by omega) hmem
  exact absurd hdigit (by decide)

theorem toString_toList_inj {m n : Nat} (h : (toString m).toList = (toString n).toList) : m = n := by
  simp only [toString_toList] at h
  have hm := Nat.ofDigitChars_toDigits (b := 10) (n := m) (by omega) (by omega)
  have hn := Nat.ofDigitChars_toDigits (b := 10) (n := n) (by omega) (by omega)
  rw [← hm, h, hn]

/-- The identity of a record gives its change back. -/
theorem Change.identity_inj {c d : Change} (hc : c.Legible) (hd : d.Legible)
    (h : c.identity = d.identity) : c = d := by
  obtain ⟨phc, hfromc⟩ := hc.before
  obtain ⟨phd, hfromd⟩ := hd.before
  have hbarc := taskId_no_mark hc.task '|' (by decide) (by decide) (by decide)
  have hbard := taskId_no_mark hd.task '|' (by decide) (by decide) (by decide)
  have hlist := congrArg String.toList h
  rw [Change.identity_toList, Change.identity_toList] at hlist
  -- the type, the empty batch, then the task
  obtain ⟨-, hlist⟩ := cut_inj (eventType_no_bar _) (eventType_no_bar _) hlist
  obtain ⟨-, hlist⟩ := cut_inj List.not_mem_nil List.not_mem_nil hlist
  obtain ⟨htask, hlist⟩ := cut_inj hbarc hbard hlist
  rw [htask] at hlist
  obtain hlist := List.cons.inj (List.append_cancel_left hlist) |>.2
  obtain ⟨hcycles, hlist⟩ := cut_inj (toString_no_colon _) (toString_no_colon _) hlist
  obtain ⟨hfrom, hto⟩ := cut_inj (hfromc ▸ taskStatus_no_mark phc) (hfromd ▸ taskStatus_no_mark phd)
    hlist
  cases c
  cases d
  simp only [Change.mk.injEq]
  exact ⟨String.toList_inj.1 htask, toString_toList_inj hcycles, String.toList_inj.1 hfrom,
    String.toList_inj.1 hto⟩

/-- No record of another type has the identity of a change. -/
theorem Change.identity_ne {c : Change} {eventType : EventType} {batchId taskId : Option String}
    {coordinate : String} (hne : eventType ≠ .taskStatusChanged) :
    eventIdentity eventType batchId taskId coordinate ≠ c.identity := by
  intro h
  obtain ⟨rest, hrest⟩ := eventIdentity_toList eventType batchId taskId coordinate
  rw [congrArg String.toList h, Change.identity_toList] at hrest
  have htype := (cut_inj (eventType_no_bar _) (eventType_no_bar _) hrest).1
  refine hne ?_
  have hstr := String.toList_inj.1 htype
  cases eventType <;> first | rfl | exact absurd hstr (by decide)

end Identity

/-! ## The events of a command -/

section Events

variable {eventId : String → String} {now : String} {before after : ProcessorState}
  {command : ProcessorCommand}

theorem statusEvent_statusTo (c : Change) (id : String) :
    (statusEvent eventId now c).statusTo id = c.statusTo id := by
  have hpayload : (statusEvent eventId now c).payload["to"]? = some (.text c.to_) := by
    simp [statusEvent, eventWithPayload]
  unfold Event.statusTo Change.statusTo
  rw [hpayload]
  have htype : (statusEvent eventId now c).eventType = .taskStatusChanged := rfl
  have htask : (statusEvent eventId now c).taskId = some c.taskId := rfl
  simp only [htype, htask, true_and, Option.some.injEq]

/-- An event that is not a record of a status. -/
structure OtherEvent (eventId : String → String) (event : Event) : Prop where
  type : event.eventType ≠ .taskStatusChanged
  id : ∃ coordinate, event.eventId =
    eventId (eventIdentity event.eventType event.batchId event.taskId coordinate)

theorem other_eventWithPayload {eventType : EventType} {batchId taskId : Option String}
    {payload : Payload} {coordinate : String} (h : eventType ≠ .taskStatusChanged) :
    OtherEvent eventId (eventWithPayload eventId now eventType batchId taskId payload coordinate) :=
  ⟨h, coordinate, rfl⟩

theorem OtherEvent.statusTo {event : Event} (h : OtherEvent eventId event) (id : String) :
    event.statusTo id = none := by
  unfold Event.statusTo
  rw [if_neg fun hboth => h.type hboth.1]

/-- Every event of a command is the record of a task that stood before and stands after, or of
another type; a change of status has its record. -/
theorem mem_projectTaskStatus {t u : TaskRuntime} {event : Event} :
    event ∈ projectTaskStatus eventId now t u command ↔
      event = statusEvent eventId now (Change.of t u command) ∧
        (taskStatus t.phase ≠ taskStatus u.phase ∨ isReviewLoop u command = true ∧
          statusBefore t u command = "на ревью" ∧ taskStatus u.phase = "на ревью") := by
  unfold projectTaskStatus
  simp only [← @moved_iff t u command]
  split
  · rename_i h
    rw [List.mem_singleton]
    exact ⟨fun he => ⟨he, h⟩, fun he => he.1⟩
  · rename_i h
    exact ⟨fun he => absurd he List.not_mem_nil, fun he => absurd he.2 h⟩

theorem mem_cohort {o : Option String} {f : String → List Event} {event : Event}
    (h : event ∈ (o.map f).getD []) : ∃ b, event ∈ f b := by
  cases o with
  | none => cases h
  | some b => exact ⟨b, h⟩

theorem mem_ite_singleton {c : Prop} [Decidable c] {event e : Event}
    (h : event ∈ if c then [e] else []) : event = e := by
  split at h
  · exact List.mem_singleton.1 h
  · cases h

theorem admissionClosedEvents_other {b : String} {event : Event}
    (h : event ∈ admissionClosedEvents eventId now before after b) : OtherEvent eventId event := by
  unfold admissionClosedEvents at h
  split at h
  · rw [mem_ite_singleton h]
    exact other_eventWithPayload (by decide)
  · cases h

theorem publishedEvents_other {b : String} {event : Event}
    (h : event ∈ publishedEvents eventId now before after command b) : OtherEvent eventId event := by
  unfold publishedEvents at h
  simp only at h
  split at h
  · rw [mem_ite_singleton h]
    exact other_eventWithPayload (by decide)
  · cases h

theorem roundStartedEvents_other {event : Event}
    (h : event ∈ roundStartedEvents eventId now before command) : OtherEvent eventId event := by
  unfold roundStartedEvents at h
  split at h
  · rw [mem_ite_singleton h]
    exact other_eventWithPayload (by decide)
  · cases h

theorem roundClosedEvents_other {event : Event}
    (h : event ∈ roundClosedEvents eventId now before after command) : OtherEvent eventId event := by
  unfold roundClosedEvents at h
  split at h
  · rw [List.mem_singleton.1 h]
    exact other_eventWithPayload (by decide)
  · cases h

theorem taskEvents_cases {batchId : Option String} {id : String} {u : TaskRuntime} {event : Event}
    (h : event ∈ taskEvents eventId now before command batchId (id, u)) :
    OtherEvent eventId event ∨ ∃ t, before.tasks[id]? = some t ∧
      event ∈ projectTaskStatus eventId now t u command := by
  unfold taskEvents at h
  simp only at h
  split at h
  · cases h
  · rename_i t ht
    rcases List.mem_append.1 h with h | h
    · left
      split at h
      · rw [mem_ite_singleton h]
        exact other_eventWithPayload (by decide)
      · cases h
    · exact .inr ⟨t, ht, h⟩

/-- Every event of a command is of another type, or the record of a task that stood before and
stands after. -/
theorem mem_events {event : Event}
    (h : event ∈ projectProcessorTransition eventId now before after command) :
    OtherEvent eventId event ∨ ∃ (id : String) (t u : TaskRuntime), before.tasks[id]? = some t ∧
      after.tasks[id]? = some u ∧ event ∈ projectTaskStatus eventId now t u command := by
  unfold projectProcessorTransition at h
  simp only [List.mem_append, List.mem_flatMap] at h
  rcases h with ((((((h | h) | h) | h) | h) | h) | ⟨⟨id, u⟩, hu, h⟩) | h
  · obtain ⟨b, h⟩ := mem_cohort h
    rw [mem_ite_singleton h]
    exact .inl (other_eventWithPayload (by decide))
  · exact .inl (roundStartedEvents_other h)
  · obtain ⟨b, h⟩ := mem_cohort h
    exact .inl (admissionClosedEvents_other h)
  · obtain ⟨b, h⟩ := mem_cohort h
    rw [mem_ite_singleton h]
    exact .inl (other_eventWithPayload (by decide))
  · obtain ⟨b, h⟩ := mem_cohort h
    exact .inl (publishedEvents_other h)
  · exact .inl (roundClosedEvents_other h)
  · refine (taskEvents_cases h).imp_right fun ⟨t, ht, h⟩ => ?_
    exact ⟨id, t, u, ht, ExtTreeMap.mem_toList_iff_getElem?_eq_some.1 hu, h⟩
  · obtain ⟨b, h⟩ := mem_cohort h
    rw [mem_ite_singleton h]
    exact .inl (other_eventWithPayload (by decide))

theorem events_of_task {id : String} {t u : TaskRuntime} {event : Event}
    (ht : before.tasks[id]? = some t) (hu : after.tasks[id]? = some u)
    (h : event ∈ projectTaskStatus eventId now t u command) :
    event ∈ projectProcessorTransition eventId now before after command := by
  unfold projectProcessorTransition
  simp only [List.mem_append, List.mem_flatMap]
  refine .inl (.inr ⟨(id, u), ExtTreeMap.mem_toList_iff_getElem?_eq_some.2 hu, ?_⟩)
  unfold taskEvents
  simp only [ht]
  exact List.mem_append_right _ h

end Events

/-! ## What is appended -/

section Unseen

variable {outbox events : List Event} {event : Event}

theorem mem_unseen (h : event ∈ unseen outbox events) :
    event ∈ events ∧ ∀ e ∈ outbox, e.eventId ≠ event.eventId := by
  induction events generalizing outbox with
  | nil => cases h
  | cons first events ih =>
    unfold unseen at h
    split at h
    · exact (ih h).imp_left (List.mem_cons_of_mem _)
    · rename_i hnew
      rcases List.mem_cons.1 h with rfl | h
      · refine ⟨List.mem_cons_self, fun e he heq => hnew ?_⟩
        exact List.any_eq_true.2 ⟨e, he, decide_eq_true heq⟩
      · obtain ⟨hin, hout⟩ := ih h
        exact ⟨List.mem_cons_of_mem _ hin, fun e he => hout e (List.mem_append_left _ he)⟩

/-- Every event of a command is in the outbox afterwards, by its id. -/
theorem unseen_covers (h : event ∈ events) :
    ∃ e ∈ outbox ++ unseen outbox events, e.eventId = event.eventId := by
  induction events generalizing outbox with
  | nil => cases h
  | cons first events ih =>
    unfold unseen
    split
    · rename_i hold
      rcases List.mem_cons.1 h with rfl | h
      · obtain ⟨e, he, heq⟩ := List.any_eq_true.1 hold
        exact ⟨e, List.mem_append_left _ he, of_decide_eq_true heq⟩
      · exact ih h
    · rcases List.mem_cons.1 h with rfl | h
      · exact ⟨event, by simp, rfl⟩
      · obtain ⟨e, he, heq⟩ := @ih (outbox ++ [first]) h
        exact ⟨e, by simpa using he, heq⟩

end Unseen

/-! ## Runs that repeat nothing -/

/-- A runtime with the changes of status its steps have made, oldest first. -/
structure Watched where
  runtime : ProcessorRuntime
  changes : List Change := []

namespace Watched

def tasks (w : Watched) : StringMap TaskRuntime := w.runtime.processor.state.tasks

/-- The changes of status one step of the runtime makes. -/
def stepChanges (r s : ProcessorRuntime) : RuntimeStep → List Change
  | .apply command _ => changesOf r.processor.state s.processor.state command
  | _ => []

def next (eventId : String → String) (w : Watched) (step : RuntimeStep) : Option Watched :=
  (w.runtime.next eventId step).map fun s =>
    { runtime := s, changes := w.changes ++ stepChanges w.runtime s step }

/-- Where the last change of a task led. -/
def statusAfter (w : Watched) (id : String) : String := lastOf (Change.statusTo id) w.changes

/-- Nothing is repeated on the way: no task changes its status as it did before at the same review
count, and a task that enters the cohort was last seen at work. -/
def onward (w w' : Watched) : Bool :=
  (w'.changes.drop w.changes.length).all (fun c => !w.changes.contains c) &&
    w'.tasks.toList.all fun (id, _) => (w.tasks[id]?).isSome || w.statusAfter id == "в работе"

/-- Every step but the one that a crash cuts short. -/
def crashFree : RuntimeStep → Bool
  | .appendOnly .. => false
  | _ => true

/-- A step without a crash that repeats nothing. -/
def meets (eventId : String → String) (w : Watched) (step : RuntimeStep) : Bool :=
  crashFree step && (w.next eventId step).all w.onward

end Watched

namespace ProcessorRuntime

/-- The status a consumer of the outbox sees. -/
def replayed (r : ProcessorRuntime) (id : String) : String := lastOf (Event.statusTo id) r.outbox

/-- The stream is faithful to a step: a change of status appends its record, and the records replay
to the status every task shows. -/
structure Streams (r s : ProcessorRuntime) : Prop where
  appended : ∀ (id : String) (t u : TaskRuntime), r.processor.state.tasks[id]? = some t →
    s.processor.state.tasks[id]? = some u → taskStatus t.phase ≠ taskStatus u.phase →
      ∃ event ∈ s.outbox.drop r.outbox.length, event.statusTo id = some (taskStatus u.phase)
  replays : ∀ (id : String) (u : TaskRuntime), s.processor.state.tasks[id]? = some u →
    s.replayed id = taskStatus u.phase

end ProcessorRuntime

namespace Watched

variable {eventId : String → String} {w w' : Watched} {step : RuntimeStep}

theorem onward_iff : w.onward w' = true ↔
    (∀ c ∈ w'.changes.drop w.changes.length, c ∉ w.changes) ∧
      ∀ (id : String) (u : TaskRuntime), w.tasks[id]? = none → w'.tasks[id]? = some u →
        w.statusAfter id = "в работе" := by
  simp only [onward, Bool.and_eq_true, List.all_eq_true, Bool.not_eq_true', List.contains_eq_mem,
    decide_eq_false_iff_not, Prod.forall, ExtTreeMap.mem_toList_iff_getElem?_eq_some, Bool.or_eq_true,
    beq_iff_eq]
  refine and_congr_right fun _ => ⟨fun h id u hnone hu => ?_, fun h id u hu => ?_⟩
  · rcases h id u hu with hsome | hstatus
    · rw [hnone] at hsome
      cases hsome
    · exact hstatus
  · cases ht : w.tasks[id]? with
    | none => exact .inr (h id u ht hu)
    | some t => exact .inl rfl

/-- What one step tells: the events it appends and the changes it makes. -/
structure Told (eventId : String → String) (w w' : Watched) (command : ProcessorCommand)
    (new : List Event) (more : List Change) : Prop where
  outbox : w'.runtime.outbox = w.runtime.outbox ++ new
  changes : w'.changes = w.changes ++ more
  fresh : ∀ e ∈ new, ∀ o ∈ w.runtime.outbox, o.eventId ≠ e.eventId
  source : ∀ e ∈ new, OtherEvent eventId e ∨ ∃ (now id : String) (t u : TaskRuntime),
    w.tasks[id]? = some t ∧ w'.tasks[id]? = some u ∧ e ∈ projectTaskStatus eventId now t u command
  mem_more : ∀ c, c ∈ more ↔ ∃ (id : String) (t u : TaskRuntime), w.tasks[id]? = some t ∧
    w'.tasks[id]? = some u ∧ taskStatus t.phase ≠ taskStatus u.phase ∧ c = Change.of t u command
  covers : ∀ c ∈ more, ∃ e ∈ w'.runtime.outbox, e.eventId = eventId c.identity

/-- A step that moves no task and appends nothing. -/
theorem told_quiet (command : ProcessorCommand) (htasks : w'.tasks = w.tasks)
    (hout : w'.runtime.outbox = w.runtime.outbox) (hchanges : w'.changes = w.changes) :
    Told eventId w w' command [] [] where
  outbox := by rw [hout, List.append_nil]
  changes := by rw [hchanges, List.append_nil]
  fresh := by simp
  source := by simp
  mem_more c := by
    refine ⟨fun h => absurd h List.not_mem_nil, ?_⟩
    rintro ⟨id, t, u, ht, hu, hne, -⟩
    rw [htasks, ht] at hu
    obtain rfl := Option.some.inj hu
    exact absurd rfl hne
  covers := by simp

theorem told_of_next (hs : w.runtime.Sailing) (hcrash : crashFree step = true)
    (hn : w.next eventId step = some w') : ∃ command new more, Told eventId w w' command new more := by
  simp only [next, Option.map_eq_some_iff] at hn
  obtain ⟨s, hn, rfl⟩ := hn
  cases step with
  | apply command now =>
    obtain ⟨t, ht, hout, hp, -⟩ := ProcessorRuntime.next_apply hn
    obtain ⟨ack, -, -, -, -, hevents⟩ := ProcessorRuntime.transition_spec ht
    rw [← hp] at hevents
    have hgrown := appendAll_unseen hout
    refine ⟨command, unseen w.runtime.outbox t.events, _, hgrown, rfl, fun e he => (mem_unseen he).2,
      fun e he => ?_, fun c => mem_changesOf, fun c hc => ?_⟩
    · have hin := (mem_unseen he).1
      rw [hevents] at hin
      exact (mem_events hin).imp_right fun ⟨id, t, u, h⟩ => ⟨now, id, t, u, h⟩
    · obtain ⟨id, t', u', ht', hu', hne, rfl⟩ := mem_changesOf.1 hc
      have hin : statusEvent eventId now (Change.of t' u' command) ∈ t.events := by
        rw [hevents]
        exact events_of_task ht' hu' (mem_projectTaskStatus.2 ⟨rfl, .inl hne⟩)
      obtain ⟨e, he, heq⟩ := @unseen_covers w.runtime.outbox _ _ hin
      exact ⟨e, hgrown ▸ he, heq⟩
  | complete key =>
    obtain ⟨effect, -, hack, -, hout⟩ := ProcessorRuntime.next_complete hn
    refine ⟨.pause, [], [], told_quiet _ ?_ hout (List.append_nil _)⟩
    rcases Processor.acknowledge_spec hs.sound hack with h | ⟨-, -, h⟩
    · simp only [tasks, h]
    · simp only [tasks, h]
      rfl
  | supersede authority reconstructed =>
    obtain ⟨hp, hout, -⟩ := ProcessorRuntime.next_supersede hn
    exact ⟨.pause, [], [], told_quiet _ (by simp only [tasks, hp]) hout (List.append_nil _)⟩
  | resume =>
    obtain ⟨hp, -, hout⟩ := ProcessorRuntime.next_resume hn
    have hstate := Processor.fromCheckpoint_eq hp
    refine ⟨.pause, [], [], told_quiet _ ?_ hout (List.append_nil _)⟩
    simp only [tasks, hstate]
  | appendOnly => cases hcrash

/-- What is kept along runs that repeat nothing. -/
structure Kept (eventId : String → String) (w : Watched) : Prop where
  sailing : w.runtime.Sailing
  known : ∀ c ∈ w.changes, ∃ e ∈ w.runtime.outbox, e.eventId = eventId c.identity
  accounted : ∀ e ∈ w.runtime.outbox, ∀ c : Change, c.Legible → c.from_ ≠ c.to_ →
    e.eventId = eventId c.identity → c ∈ w.changes
  agrees : ∀ id, w.runtime.replayed id = w.statusAfter id
  shown : ∀ (id : String) (u : TaskRuntime), w.tasks[id]? = some u →
    w.statusAfter id = taskStatus u.phase

section Step

variable {command : ProcessorCommand} {new : List Event} {more : List Change}

theorem legible_of {id : String} {t u : TaskRuntime} (hs : Sound w.runtime.processor)
    (hu : w.tasks[id]? = some u) (command : ProcessorCommand) : (Change.of t u command).Legible where
  task := by
    have hok := hs.tasks id u hu
    show isTaskId u.id = true
    rw [hok.key]
    exact hok.valid
  before := statusBefore_status t u command
  after := ⟨u.phase, rfl⟩

/-- A new record of a task is the one of its change. -/
theorem Told.record (h : Told eventId w w' command new more) (hs : Sound w'.runtime.processor)
    {e : Event} (he : e ∈ new) {id status : String} (hstatus : e.statusTo id = some status) :
    ∃ t u, w.tasks[id]? = some t ∧ w'.tasks[id]? = some u ∧ status = taskStatus u.phase ∧
      e.eventId = eventId (Change.of t u command).identity := by
  rcases h.source e he with hother | ⟨now, k, t, u, ht, hu, hmem⟩
  · rw [hother.statusTo] at hstatus
    cases hstatus
  · obtain ⟨rfl, -⟩ := mem_projectTaskStatus.1 hmem
    rw [statusEvent_statusTo] at hstatus
    unfold Change.statusTo at hstatus
    split at hstatus
    · rename_i hid
      have hkey : u.id = k := (hs.tasks k u hu).key
      obtain rfl : k = id := hkey.symm.trans hid
      exact ⟨t, u, ht, hu, (Option.some.inj hstatus).symm, rfl⟩
    · cases hstatus

/-- A change of a task that was not made before has its new record. -/
theorem Told.appended (h : Told eventId w w' command new more)
    (hinj : Function.Injective eventId) (hk : w.Kept eventId) (hs : Sound w'.runtime.processor)
    {id : String} {t u : TaskRuntime} (ht : w.tasks[id]? = some t) (hu : w'.tasks[id]? = some u)
    (hne : taskStatus t.phase ≠ taskStatus u.phase) (hnew : Change.of t u command ∉ w.changes) :
    ∃ e ∈ new, e.statusTo id = some (taskStatus u.phase) := by
  have hlegible := legible_of (t := t) hs hu command
  obtain ⟨e, he, heq⟩ := h.covers _ ((h.mem_more _).2 ⟨id, t, u, ht, hu, hne, rfl⟩)
  rw [h.outbox] at he
  rcases List.mem_append.1 he with he | he
  · exact absurd (hk.accounted e he _ hlegible (moved_iff.2 hne) heq) hnew
  refine ⟨e, he, ?_⟩
  rcases h.source e he with hother | ⟨now, k, t', u', ht', hu', hmem⟩
  · obtain ⟨coordinate, hid⟩ := hother.id
    exact absurd (hinj (hid.symm.trans heq)) (Change.identity_ne hother.type)
  · obtain ⟨rfl, -⟩ := mem_projectTaskStatus.1 hmem
    have hsame := Change.identity_inj (legible_of (t := t') hs hu' command) hlegible (hinj heq)
    rw [statusEvent_statusTo, hsame]
    have hkey : u.id = id := (hs.tasks id u hu).key
    exact if_pos hkey

/-- The changes of one task in a step. -/
theorem Told.statusTo_more (h : Told eventId w w' command new more)
    (hs : Sound w'.runtime.processor) {c : Change} (hc : c ∈ more) {id status : String}
    (hstatus : c.statusTo id = some status) : ∃ t u, w.tasks[id]? = some t ∧
      w'.tasks[id]? = some u ∧ taskStatus t.phase ≠ taskStatus u.phase ∧
        status = taskStatus u.phase := by
  obtain ⟨k, t, u, ht, hu, hne, rfl⟩ := (h.mem_more c).1 hc
  unfold Change.statusTo at hstatus
  split at hstatus
  · rename_i hid
    have hkey : u.id = k := (hs.tasks k u hu).key
    obtain rfl : k = id := hkey.symm.trans hid
    exact ⟨t, u, ht, hu, hne, (Option.some.inj hstatus).symm⟩
  · cases hstatus

/-- A task that does not stand on both sides of a step, or keeps its status, makes no change. -/
theorem Told.statusAfter_eq (h : Told eventId w w' command new more)
    (hs : Sound w'.runtime.processor) {id : String}
    (hkeep : ∀ t u, w.tasks[id]? = some t → w'.tasks[id]? = some u →
      taskStatus t.phase = taskStatus u.phase) : w'.statusAfter id = w.statusAfter id := by
  unfold statusAfter
  rw [h.changes]
  refine lastOf_append_none fun c hc => ?_
  by_contra hsome
  obtain ⟨status, hstatus⟩ := Option.ne_none_iff_exists'.1 hsome
  obtain ⟨t, u, ht, hu, hne, -⟩ := h.statusTo_more hs hc hstatus
  exact hne (hkeep t u ht hu)

theorem Told.replayed_eq (h : Told eventId w w' command new more)
    (hs : Sound w'.runtime.processor) {id : String}
    (hkeep : ∀ t u, w.tasks[id]? = some t → w'.tasks[id]? = some u → False) :
    w'.runtime.replayed id = w.runtime.replayed id := by
  unfold ProcessorRuntime.replayed
  rw [h.outbox]
  refine lastOf_append_none fun e he => ?_
  by_contra hsome
  obtain ⟨status, hstatus⟩ := Option.ne_none_iff_exists'.1 hsome
  obtain ⟨t, u, ht, hu, -⟩ := h.record hs he hstatus
  exact hkeep t u ht hu

/-- A record that is appended is what a consumer sees. -/
theorem Told.replayed_new (h : Told eventId w w' command new more)
    (hs : Sound w'.runtime.processor) {id : String} {u : TaskRuntime} (hu : w'.tasks[id]? = some u)
    (hsome : ∃ e ∈ new, ∃ status, e.statusTo id = some status) :
    w'.runtime.replayed id = taskStatus u.phase := by
  have hsame : ∀ e ∈ new, ∀ status, e.statusTo id = some status → status = taskStatus u.phase := by
    intro e he status hstatus
    obtain ⟨t, u', -, hu', hst, -⟩ := h.record hs he hstatus
    obtain rfl := Option.some.inj (hu'.symm.trans hu)
    exact hst
  obtain ⟨e, he, status, hstatus⟩ := hsome
  obtain rfl := hsame e he status hstatus
  unfold ProcessorRuntime.replayed
  rw [h.outbox]
  exact lastOf_append_some ⟨e, he, hstatus⟩ hsame

/-- A task that stands on both sides of a step that does not repeat its change. -/
theorem Told.standing (h : Told eventId w w' command new more)
    (hinj : Function.Injective eventId) (hk : w.Kept eventId) (hs : Sound w'.runtime.processor)
    (honce : ∀ c ∈ more, c ∉ w.changes) {id : String} {t u : TaskRuntime}
    (ht : w.tasks[id]? = some t) (hu : w'.tasks[id]? = some u) :
    w'.runtime.replayed id = taskStatus u.phase ∧ w'.statusAfter id = taskStatus u.phase := by
  by_cases hne : taskStatus t.phase = taskStatus u.phase
  · have hkeep : w'.statusAfter id = w.statusAfter id := by
      refine h.statusAfter_eq hs fun t' u' ht' hu' => ?_
      obtain rfl := Option.some.inj (ht.symm.trans ht')
      obtain rfl := Option.some.inj (hu.symm.trans hu')
      exact hne
    have hstatus : w'.statusAfter id = taskStatus u.phase := by rw [hkeep, hk.shown id t ht, hne]
    refine ⟨?_, hstatus⟩
    -- a review that is gone through again has a record, which says what was said
    by_cases hsome : ∃ e ∈ new, ∃ status, e.statusTo id = some status
    · exact h.replayed_new hs hu hsome
    · have hsilent : ∀ e ∈ new, e.statusTo id = none := by
        intro e he
        by_contra hcon
        obtain ⟨status, hst⟩ := Option.ne_none_iff_exists'.1 hcon
        exact hsome ⟨e, he, status, hst⟩
      have hsame : w'.runtime.replayed id = w.runtime.replayed id := by
        unfold ProcessorRuntime.replayed
        rw [h.outbox]
        exact lastOf_append_none hsilent
      rw [hsame, hk.agrees, ← hkeep, hstatus]
  · have hc : Change.of t u command ∈ more := (h.mem_more _).2 ⟨id, t, u, ht, hu, hne, rfl⟩
    obtain ⟨e, he, hst⟩ := h.appended hinj hk hs ht hu hne (honce _ hc)
    refine ⟨h.replayed_new hs hu ⟨e, he, _, hst⟩, ?_⟩
    unfold statusAfter
    rw [h.changes]
    refine lastOf_append_some ⟨_, hc, if_pos (hs.tasks id u hu).key⟩ fun c hc status hstatus => ?_
    obtain ⟨t', u', -, hu', -, hlast⟩ := h.statusTo_more hs hc hstatus
    obtain rfl := Option.some.inj (hu'.symm.trans hu)
    exact hlast

end Step

theorem next_runtime (hn : w.next eventId step = some w') :
    w.runtime.next eventId step = some w'.runtime := by
  simp only [next, Option.map_eq_some_iff] at hn
  obtain ⟨s, hn, rfl⟩ := hn
  exact hn

/-- A task enters a cohort at work. -/
theorem entered (hs : w.runtime.Sailing) (hn : w.next eventId step = some w') {id : String}
    {u : TaskRuntime} (hnone : w.tasks[id]? = none) (hu : w'.tasks[id]? = some u) :
    taskStatus u.phase = "в работе" := by
  have hmove := ProcessorRuntime.next_reducer (next_runtime hn)
  cases hstep : w.runtime.reducerStep step with
  | none =>
    rw [hstep] at hmove
    have hsame : w'.runtime.processor = w.runtime.processor := hmove
    unfold tasks at hnone hu
    rw [hsame, hnone] at hu
    cases hu
  | some move =>
    rw [hstep] at hmove
    rcases Processor.next_tasks hs.sound hmove with hframe | ⟨selected, effects, hwave⟩
    · obtain ⟨t, ht, -⟩ := hframe id u hu
      cases ht.symm.trans hnone
    · obtain ⟨wave, hadmitted⟩ := hwave.admitted
      by_cases hid : id ∈ selected.map (·.id)
      · obtain ⟨c, hc, rfl⟩ := List.mem_map.1 hid
        obtain rfl := Option.some.inj ((hadmitted c hc).symm.trans hu)
        rfl
      · cases (hwave.kept id hid).symm.trans hu |>.symm.trans hnone

/-- A faithful step is one that repeats nothing. -/
theorem Kept.onward (hk : w.Kept eventId) (hcrash : crashFree step = true)
    (hn : w.next eventId step = some w') (h : w.runtime.Streams w'.runtime) : w.onward w' = true := by
  have hsail := hk.sailing.step (next_runtime hn)
  obtain ⟨command, new, more, htold⟩ := told_of_next hk.sailing hcrash hn
  have hdrop : w'.changes.drop w.changes.length = more := by rw [htold.changes, List.drop_left]
  have hnew : w'.runtime.outbox.drop w.runtime.outbox.length = new := by
    rw [htold.outbox, List.drop_left]
  refine onward_iff.2 ⟨fun c hc hin => ?_, fun id u hnone hu => ?_⟩
  · rw [hdrop] at hc
    obtain ⟨id, t, u, ht, hu, hne, rfl⟩ := (htold.mem_more c).1 hc
    obtain ⟨e, he, hst⟩ := h.appended id t u ht hu hne
    rw [hnew] at he
    obtain ⟨t', u', ht', hu', -, hid⟩ := htold.record hsail.sound he hst
    obtain rfl := Option.some.inj (ht.symm.trans ht')
    obtain rfl := Option.some.inj (hu.symm.trans hu')
    -- the record of the earlier change has the same id
    obtain ⟨o, ho, hoid⟩ := hk.known _ hin
    exact htold.fresh e he o ho (hoid.trans hid.symm)
  · have hreplay := h.replays id u hu
    rw [htold.replayed_eq hsail.sound fun t _ ht _ => by cases ht.symm.trans hnone] at hreplay
    rw [← hk.agrees, hreplay, entered hk.sailing hn hnone hu]

/-- A step that repeats nothing is faithful, and keeps what runs keep. -/
theorem Kept.moved (hinj : Function.Injective eventId) (hk : w.Kept eventId)
    (hcrash : crashFree step = true) (hn : w.next eventId step = some w')
    (h : w.onward w' = true) : w'.Kept eventId ∧ w.runtime.Streams w'.runtime := by
  have hsail := hk.sailing.step (next_runtime hn)
  have hs := hsail.sound
  obtain ⟨command, new, more, htold⟩ := told_of_next hk.sailing hcrash hn
  have hdrop : w'.changes.drop w.changes.length = more := by rw [htold.changes, List.drop_left]
  have hnew : w'.runtime.outbox.drop w.runtime.outbox.length = new := by
    rw [htold.outbox, List.drop_left]
  obtain ⟨honce, henter⟩ := onward_iff.1 h
  rw [hdrop] at honce
  -- what every task that stands afterwards shows
  have hread : ∀ (id : String) (u : TaskRuntime), w'.tasks[id]? = some u →
      w'.runtime.replayed id = taskStatus u.phase ∧ w'.statusAfter id = taskStatus u.phase := by
    intro id u hu
    cases ht : w.tasks[id]? with
    | some t => exact htold.standing hinj hk hs honce ht hu
    | none =>
      have hnone : ∀ t, w.tasks[id]? = some t → False := fun t h' => by cases h'.symm.trans ht
      have hstatus := entered hk.sailing hn ht hu
      rw [htold.replayed_eq hs fun t _ h' _ => hnone t h', hk.agrees,
        htold.statusAfter_eq hs fun t _ h' _ => absurd h' (hnone t), henter id u ht hu, hstatus]
      exact ⟨rfl, rfl⟩
  refine ⟨⟨hsail, fun c hc => ?_, fun e he c hc hmoved heq => ?_, fun id => ?_,
    fun id u hu => (hread id u hu).2⟩, fun id t u ht hu hne => ?_, fun id u hu => (hread id u hu).1⟩
  · rw [htold.changes] at hc
    rcases List.mem_append.1 hc with hc | hc
    · obtain ⟨e, he, heq⟩ := hk.known c hc
      exact ⟨e, htold.outbox ▸ List.mem_append_left _ he, heq⟩
    · exact htold.covers c hc
  · rw [htold.outbox] at he
    rw [htold.changes]
    rcases List.mem_append.1 he with he | he
    · exact List.mem_append_left _ (hk.accounted e he c hc hmoved heq)
    rcases htold.source e he with hother | ⟨now, id, t, u, ht, hu, hmem⟩
    · obtain ⟨coordinate, hid⟩ := hother.id
      exact absurd (hinj (hid.symm.trans heq)) (Change.identity_ne hother.type)
    · obtain ⟨rfl, -⟩ := mem_projectTaskStatus.1 hmem
      obtain rfl := Change.identity_inj (legible_of (t := t) hs hu command) hc (hinj heq)
      exact List.mem_append_right _ ((htold.mem_more _).2 ⟨id, t, u, ht, hu, moved_iff.1 hmoved, rfl⟩)
  · cases hu : w'.tasks[id]? with
    | some u => rw [(hread id u hu).1, (hread id u hu).2]
    | none =>
      have hnone : ∀ u, w'.tasks[id]? = some u → False := fun u h' => by cases h'.symm.trans hu
      rw [htold.replayed_eq hs fun _ u _ h' => hnone u h', hk.agrees,
        htold.statusAfter_eq hs fun _ u _ h' => absurd h' (hnone u)]
  · rw [hnew]
    exact htold.appended hinj hk hs ht hu hne (honce _ ((htold.mem_more _).2 ⟨id, t, u, ht, hu, hne, rfl⟩))

/-! ## The stream over whole runs -/

variable {config : ProcessorConfig} {r0 : ProcessorRuntime}

theorem kept_new (hnew : ProcessorRuntime.new config = .ok r0) : Watched.Kept eventId { runtime := r0 } := by
  obtain ⟨hp, -, hout⟩ := ProcessorRuntime.new_reducer hnew
  have hempty : r0.processor.state.tasks = ∅ := by
    simp only [Processor.new, bind_eq_ok] at hp
    obtain ⟨_, -, hp⟩ := hp
    rw [← Except.ok.inj hp]
  refine ⟨ProcessorRuntime.new_sailing hnew, fun c hc => absurd hc List.not_mem_nil,
    fun e he => ?_, fun id => ?_, fun id u hu => ?_⟩
  · rw [hout] at he
    cases he
  · unfold ProcessorRuntime.replayed statusAfter
    rw [hout]
    rfl
  · unfold tasks at hu
    rw [hempty] at hu
    simp at hu

theorem kept_of_reach (hinj : Function.Injective eventId)
    (hnew : ProcessorRuntime.new config = .ok r0)
    (h : Reach (next eventId) (fun w step => w.meets eventId step = true) { runtime := r0 } w) :
    w.Kept eventId := by
  refine h.invariant (kept_new hnew) ?_
  rintro t step u ht hok hn
  unfold meets at hok
  rw [Bool.and_eq_true, hn] at hok
  exact (ht.moved hinj hok.1 hn hok.2).1

/-- **The status stream is faithful as long as nothing is repeated.** In every run without a crash
whose steps repeat nothing, every step is faithful; and the first one that repeats something is not. -/
theorem status_stream (hinj : Function.Injective eventId)
    (hnew : ProcessorRuntime.new config = .ok r0)
    (h : Reach (next eventId) (fun w step => w.meets eventId step = true) { runtime := r0 } w)
    (hcrash : crashFree step = true) (hn : w.next eventId step = some w') :
    w.runtime.Streams w'.runtime ↔ w.onward w' = true := by
  have hk := kept_of_reach hinj hnew h
  exact ⟨hk.onward hcrash hn, fun hon => (hk.moved hinj hcrash hn hon).2⟩

/-- A task merged, and its publication halted for a re-anchor. -/
def halted : List RuntimeStep :=
  ProcessorRuntime.verified ++
    ProcessorRuntime.applied [.publicationReanchorRequired "moved" .remotePublication]

/-- Up to the second merge nothing is repeated, so the re-anchor is still told. -/
theorem status_stream_taken_back :
    ∃ w w' : Watched, w.statusAfter "T-1" = "слита" ∧ w'.statusAfter "T-1" = "готова к слиянию" ∧
      w.runtime.Streams w'.runtime := by
  have hrun : (exec (guarded (meets id) (next id)) { runtime := ProcessorRuntime.freshRuntime }
      halted).any (fun w => w.statusAfter "T-1" == "слита" &&
        (w.next id (.apply .publicationReanchored "2026-07-24T12:00:00Z")).any fun w' =>
          w'.statusAfter "T-1" == "готова к слиянию" && w.onward w') = true := by
    decide +kernel
  obtain ⟨w, hreach, hp⟩ := exec_any hrun
  simp only [Bool.and_eq_true, Option.any_eq_true, beq_iff_eq] at hp
  obtain ⟨hmerged, w', hnext, hready, honward⟩ := hp
  have hnew : ProcessorRuntime.new {} = .ok ProcessorRuntime.freshRuntime := rfl
  exact ⟨w, w', hmerged, hready,
    (status_stream Function.injective_id hnew hreach rfl hnext).2 honward⟩

/-- The second merge has no record: the stream says ready, the task is merged. -/
theorem status_stream_swallowed :
    ∃ r s : ProcessorRuntime,
      Reach (ProcessorRuntime.next id) (fun _ step => crashFree step = true)
        ProcessorRuntime.freshRuntime r ∧
      r.next id (.apply (.taskMerged "T-1" (.merged "m2")) "2026-07-24T12:00:00Z") = some s ∧
      s.outbox = r.outbox ∧ s.replayed "T-1" = "готова к слиянию" ∧
      (s.processor.state.tasks["T-1"]?).map (taskStatus ·.phase) = some "слита" ∧ ¬r.Streams s := by
  have hrun : (exec (guarded (fun _ step => crashFree step) (ProcessorRuntime.next id))
      ProcessorRuntime.freshRuntime (halted ++ ProcessorRuntime.applied
        [.publicationReanchored, .integrationWorkspaceReady])).any (fun r =>
        (r.next id (.apply (.taskMerged "T-1" (.merged "m2")) "2026-07-24T12:00:00Z")).any fun s =>
          decide (s.outbox = r.outbox) && s.replayed "T-1" == "готова к слиянию" &&
            (s.processor.state.tasks["T-1"]?).map (taskStatus ·.phase) == some "слита") = true := by
    decide +kernel
  obtain ⟨r, hreach, hp⟩ := exec_any hrun
  simp only [Bool.and_eq_true, Option.any_eq_true, beq_iff_eq, decide_eq_true_eq] at hp
  obtain ⟨s, hnext, ⟨hout, hreplayed⟩, hstatus⟩ := hp
  refine ⟨r, s, hreach, hnext, hout, hreplayed, hstatus, fun hstreams => ?_⟩
  obtain ⟨u, hu, hshown⟩ := Option.map_eq_some_iff.1 hstatus
  have hcontra := hstreams.replays "T-1" u hu
  rw [hreplayed, hshown] at hcontra
  exact absurd hcontra (by decide)

end Watched

end Orchestrail
