import Orchestrail.Proof.Lift
import Orchestrail.Spec.RuntimeCalls

/-!
# A call that fails

A call of the runtime decides on a copy and keeps its copy only after the last write. So a call that
returns an error has not changed the memory; what it has written is a first part of its events, or
all of them and some of the events of the finished operation, and at most its own checkpoint, whose
replacement was reported as a failure after it happened.
-/

namespace Orchestrail

open Std Table Durable

/-! ## Appending once -/

/-- How often an id is in the outbox. -/
def idCount (outbox : List Event) (id : String) : Nat := outbox.countP (·.eventId = id)

/-- The outbox has grown, by events whose ids were not there. -/
structure Grows (before after : List Event) : Prop where
  front : before <+: after
  count : ∀ id, idCount after id ≤ max 1 (idCount before id)

theorem Grows.refl (outbox : List Event) : Grows outbox outbox :=
  ⟨List.prefix_refl _, fun _ => Nat.le_max_right _ _⟩

theorem Grows.trans {a b c : List Event} (h : Grows a b) (h' : Grows b c) : Grows a c := by
  refine ⟨h.front.trans h'.front, fun id => ?_⟩
  have h1 := h.count id
  have h2 := h'.count id
  omega

/-- The events that are not in the outbox, in their order. -/
def unseen (outbox : List Event) : List Event → List Event
  | [] => []
  | event :: events =>
    if outbox.any (·.eventId = event.eventId) then unseen outbox events
    else event :: unseen (outbox ++ [event]) events

theorem unseen_take (outbox events : List Event) (n : Nat) :
    unseen outbox (events.take n) <+: unseen outbox events := by
  induction events generalizing outbox n with
  | nil => simp
  | cons event events ih =>
    cases n with
    | zero => exact List.nil_prefix
    | succ n =>
      rw [List.take_succ_cons]
      unfold unseen
      split
      · exact ih outbox n
      · exact List.prefix_cons_inj _ |>.2 (ih _ n)

/-- What an accepted event does: it is there already, or it is appended. -/
theorem appendIdempotent_ok {outbox after : List Event} {event : Event}
    (h : appendIdempotent outbox event = .ok after) :
    (after = outbox ∧ ∃ existing, outbox.find? (·.eventId = event.eventId) = some existing ∧
        existing.semantic = event.semantic) ∨
      (after = outbox ++ [event] ∧ ∀ e ∈ outbox, e.eventId ≠ event.eventId) := by
  unfold appendIdempotent at h
  cases hfind : outbox.find? (·.eventId = event.eventId) with
  | none =>
    rw [hfind] at h
    refine .inr ⟨(Except.ok.inj h).symm, fun e he => ?_⟩
    simpa using List.find?_eq_none.1 hfind e he
  | some existing =>
    rw [hfind] at h
    simp only at h
    split at h
    · rename_i hsame
      exact .inl ⟨(Except.ok.inj h).symm, existing, rfl, hsame⟩
    · cases h

theorem Grows.append {outbox after : List Event} {event : Event}
    (h : appendIdempotent outbox event = .ok after) : Grows outbox after := by
  rcases appendIdempotent_ok h with ⟨rfl, -⟩ | ⟨rfl, hnew⟩
  · exact .refl _
  · refine ⟨List.prefix_append _ _, fun id => ?_⟩
    unfold idCount
    rw [List.countP_append]
    by_cases hid : event.eventId = id
    · have hnone : outbox.countP (·.eventId = id) = 0 := by
        rw [List.countP_eq_zero]
        intro e he
        simpa [← hid] using hnew e he
      simp [hnone, hid]
    · simp only [List.countP_singleton, hid, decide_false, Bool.false_eq_true, if_false]
      omega

theorem unseen_append {outbox after : List Event} {event : Event} (events : List Event)
    (h : appendIdempotent outbox event = .ok after) :
    outbox ++ unseen outbox (event :: events) = after ++ unseen after events := by
  rw [unseen]
  rcases appendIdempotent_ok h with ⟨rfl, existing, hfind, -⟩ | ⟨rfl, hnew⟩
  · have hany : after.any (·.eventId = event.eventId) = true :=
      List.any_eq_true.2 ⟨existing, List.mem_of_find?_eq_some hfind, by
        simpa using List.find?_some hfind⟩
    rw [if_pos hany]
  · have hany : ¬outbox.any (·.eventId = event.eventId) = true := by
      simpa using hnew
    rw [if_neg hany, List.append_assoc, List.singleton_append]

/-- What is appended is what was not there. -/
theorem appendAll_unseen {outbox after events : List Event}
    (h : appendAll outbox events = .ok after) : after = outbox ++ unseen outbox events := by
  induction events generalizing outbox with
  | nil => exact (Except.ok.inj h).symm.trans (List.append_nil _).symm
  | cons event events ih =>
    obtain ⟨middle, hevent, hevents⟩ := bind_eq_ok.1 h
    rw [unseen_append events hevent]
    exact ih hevents

theorem Grows.appendAll {outbox after events : List Event}
    (h : appendAll outbox events = .ok after) : Grows outbox after := by
  induction events generalizing outbox with
  | nil => exact (Except.ok.inj h) ▸ .refl _
  | cons event events ih =>
    obtain ⟨middle, hevent, hevents⟩ := bind_eq_ok.1 h
    exact (Grows.append hevent).trans (ih hevents)

theorem appendAll_append (outbox events more : List Event) :
    appendAll outbox (events ++ more) =
      (do appendAll (← appendAll outbox events) more : Ran (List Event)) := by
  induction events generalizing outbox with
  | nil => rfl
  | cons event events ih =>
    show (appendIdempotent outbox event >>= fun o => appendAll o (events ++ more)) = _
    cases hevent : appendIdempotent outbox event with
    | error e => simp only [appendAll, hevent]; rfl
    | ok middle =>
      simp only [appendAll, hevent]
      exact ih middle

/-- An event that is there is found again, whatever is behind it. -/
theorem appendIdempotent_again {outbox after more : List Event} {event : Event}
    (h : appendIdempotent outbox event = .ok after) :
    appendIdempotent (after ++ more) event = .ok (after ++ more) := by
  unfold appendIdempotent
  rcases appendIdempotent_ok h with ⟨rfl, existing, hfind, hsame⟩ | ⟨rfl, hnew⟩
  · rw [List.find?_append, hfind]
    exact if_pos hsame
  · have hnone : outbox.find? (·.eventId = event.eventId) = none := by
      rw [List.find?_eq_none]
      intro e he
      simpa using hnew e he
    rw [List.find?_append, List.find?_append, hnone]
    simp

theorem appendAll_again {outbox after events : List Event}
    (h : appendAll outbox events = .ok after) (more : List Event) :
    appendAll (after ++ more) events = .ok (after ++ more) := by
  induction events generalizing outbox with
  | nil => rfl
  | cons event events ih =>
    obtain ⟨middle, hevent, hevents⟩ := bind_eq_ok.1 h
    refine bind_eq_ok.2 ⟨after ++ more, ?_, ih hevents⟩
    rw [appendAll_unseen hevents, List.append_assoc]
    exact appendIdempotent_again hevent

/-! ### Up to the time -/

theorem appendIdempotent_semantic (outbox : List Event) (event : Event) :
    (appendIdempotent outbox event).map (List.map Event.semantic) =
      appendIdempotent (outbox.map Event.semantic) event.semantic := by
  have hfind : (outbox.map Event.semantic).find? (·.eventId = event.semantic.eventId) =
      (outbox.find? (·.eventId = event.eventId)).map Event.semantic := by
    rw [List.find?_map]
    rfl
  unfold appendIdempotent
  rw [hfind]
  cases outbox.find? (·.eventId = event.eventId) with
  | none =>
    show Except.ok ((outbox ++ [event]).map Event.semantic) = _
    rw [List.map_append]
    rfl
  | some existing =>
    simp only [Option.map_some]
    by_cases hsame : existing.semantic = event.semantic
    · rw [if_pos hsame]
      exact (if_pos hsame).symm
    · rw [if_neg hsame]
      exact (if_neg hsame).symm

theorem appendAll_semantic (outbox events : List Event) :
    (appendAll outbox events).map (List.map Event.semantic) =
      appendAll (outbox.map Event.semantic) (events.map Event.semantic) := by
  induction events generalizing outbox with
  | nil => rfl
  | cons event events ih =>
    rw [List.map_cons, appendAll, appendAll, ← appendIdempotent_semantic]
    cases appendIdempotent outbox event with
    | error e => rfl
    | ok middle => exact ih middle

/-! ### The events of a transition say the same at every time -/

section Timeless

variable (eventId : String → String) (now : String) (before after : ProcessorState)
variable (command : ProcessorCommand)

theorem singleton_semantic (c : Prop) [Decidable c] (e e' : Event) (h : e.semantic = e') :
    (if c then [e] else []).map Event.semantic = if c then [e'] else [] := by
  split
  · rw [List.map_singleton, h]
  · rfl

theorem roundStartedEvents_semantic :
    (roundStartedEvents eventId now before command).map Event.semantic =
      roundStartedEvents eventId "" before command := by
  unfold roundStartedEvents
  split
  · exact singleton_semantic _ _ _ rfl
  · rfl

theorem admissionClosedEvents_semantic (batchId : String) :
    (admissionClosedEvents eventId now before after batchId).map Event.semantic =
      admissionClosedEvents eventId "" before after batchId := by
  unfold admissionClosedEvents
  split
  · exact singleton_semantic _ _ _ rfl
  · rfl

theorem publishedEvents_semantic (batchId : String) :
    (publishedEvents eventId now before after command batchId).map Event.semantic =
      publishedEvents eventId "" before after command batchId := by
  unfold publishedEvents
  simp only
  split
  · exact singleton_semantic _ _ _ rfl
  · rfl

theorem roundClosedEvents_semantic :
    (roundClosedEvents eventId now before after command).map Event.semantic =
      roundClosedEvents eventId "" before after command := by
  unfold roundClosedEvents
  split <;> rfl

theorem taskEvents_semantic (batchId : Option String) (entry : String × TaskRuntime) :
    (taskEvents eventId now before command batchId entry).map Event.semantic =
      taskEvents eventId "" before command batchId entry := by
  obtain ⟨id, current⟩ := entry
  unfold taskEvents
  simp only
  cases before.tasks[id]? with
  | none => rfl
  | some previous =>
    simp only [List.map_append]
    congr 1
    · cases batchId with
      | none => rfl
      | some batchId => exact singleton_semantic _ _ _ rfl
    · exact singleton_semantic _ _ _ rfl

/-- **The events of a transition** differ in their time only. -/
theorem projectProcessorTransition_semantic :
    (projectProcessorTransition eventId now before after command).map Event.semantic =
      projectProcessorTransition eventId "" before after command := by
  have hcohort : ∀ (batchId : Option String) (f g : String → List Event),
      (∀ id, (f id).map Event.semantic = g id) →
        ((batchId.map f).getD []).map Event.semantic = (batchId.map g).getD [] := by
    intro batchId f g h
    cases batchId with
    | none => rfl
    | some id => exact h id
  unfold projectProcessorTransition
  simp only [List.map_append, List.map_flatMap, taskEvents_semantic, roundStartedEvents_semantic,
    roundClosedEvents_semantic]
  rw [hcohort _ _ _ fun _ => singleton_semantic _ _ _ rfl,
    hcohort _ _ _ fun id => admissionClosedEvents_semantic eventId now before after id,
    hcohort _ _ _ fun _ => singleton_semantic _ _ _ rfl,
    hcohort _ _ _ fun id => publishedEvents_semantic eventId now before after command id,
    hcohort _ _ _ fun _ => singleton_semantic _ _ _ rfl]
  rfl

end Timeless

/-! ## What a call leaves -/

section Writing

/-- Any step may follow any other. -/
abbrev anyWrite : RuntimeDisk → RuntimeDisk → Prop := fun _ _ => True

variable {s : RuntimeDisk} {k : RuntimeMemory}

theorem runs_appendEvent {event : Event} :
    Runs id anyWrite (appendEvent event) s k fun r t l => l = k ∧
      ((r ≠ .ok () ∧ t = s ∧ ∀ e, r = .error (.failed e) →
          ∃ x, e = .runtime x ∧ appendIdempotent s.outbox event = .error x) ∨
        ∃ outbox, appendIdempotent s.outbox event = .ok outbox ∧ t = { s with outbox } ∧
          ∀ e, r ≠ .error (.failed e)) := by
  unfold appendEvent
  refine runs_onDisk (runs_bind ?_)
  show Runs id anyWrite (attempt (ofRan (appendIdempotent s.outbox event))) s k _
  cases happend : appendIdempotent s.outbox event with
  | error x =>
    refine runs_refuse ⟨rfl, .inl ⟨by simp, rfl, fun e he => ⟨x, ?_, rfl⟩⟩⟩
    exact (Halt.failed.inj (Except.error.inj he)).symm
  | ok outbox =>
    refine runs_pure (runs_atomically { s with outbox } rfl trivial ?_ ?_ ?_)
    · exact ⟨rfl, .inr ⟨outbox, rfl, rfl, by simp⟩⟩
    · exact ⟨rfl, .inr ⟨outbox, rfl, rfl, by simp⟩⟩
    · exact ⟨rfl, .inl ⟨by simp, rfl, by simp⟩⟩

/-- How the events of a call end up in the outbox: all of them, or a first part. -/
inductive Appended (s : RuntimeDisk) (events : List Event) :
    Except (Halt RuntimeCallError) Unit → RuntimeDisk → Prop where
  | all {outbox : List Event} (h : appendAll s.outbox events = .ok outbox) :
      Appended s events (.ok ()) { s with outbox }
  | interrupted {outbox : List Event} (n : Nat)
      (h : appendAll s.outbox (events.take n) = .ok outbox) :
      Appended s events (.error .interrupted) { s with outbox }
  | collision {outbox : List Event} (n : Nat) (error : RuntimeError)
      (h : appendAll s.outbox (events.take n) = .ok outbox)
      (herror : appendAll s.outbox events = .error error) :
      Appended s events (.error (.failed (.runtime error))) { s with outbox }

theorem Appended.cons {event : Event} {events outbox : List Event} {t : RuntimeDisk}
    {r : Except (Halt RuntimeCallError) Unit}
    (hevent : appendIdempotent s.outbox event = .ok outbox)
    (h : Appended { s with outbox } events r t) : Appended s (event :: events) r t := by
  cases h with
  | all h => exact .all (bind_eq_ok.2 ⟨outbox, hevent, h⟩)
  | interrupted n h => exact .interrupted (n + 1) (bind_eq_ok.2 ⟨outbox, hevent, h⟩)
  | collision n error h herror =>
    refine .collision (n + 1) error (bind_eq_ok.2 ⟨outbox, hevent, h⟩) ?_
    rw [appendAll, hevent]
    exact herror

theorem runs_appendEvents {events : List Event} :
    Runs id anyWrite (appendEvents events) s k fun r t l => l = k ∧ Appended s events r t := by
  induction events generalizing s with
  | nil => exact runs_pure ⟨rfl, .all rfl⟩
  | cons event events ih =>
    refine runs_bind (runs_appendEvent.mono ?_)
    rintro r t l ⟨rfl, h⟩
    cases r with
    | ok _ =>
      rcases h with ⟨hne, -, -⟩ | ⟨outbox, hevent, rfl, -⟩
      · exact absurd rfl hne
      · exact ih.mono fun r t l' ⟨hl, h⟩ => ⟨hl, h.cons hevent⟩
    | error halt =>
      refine ⟨rfl, ?_⟩
      rcases h with ⟨-, rfl, hfailed⟩ | ⟨outbox, hevent, rfl, hfailed⟩
      · cases halt with
        | interrupted => exact .interrupted 0 rfl
        | failed e =>
          obtain ⟨x, rfl, hx⟩ := hfailed e rfl
          refine .collision 0 x rfl ?_
          rw [appendAll, hx]
          rfl
      · cases halt with
        | interrupted =>
          exact .interrupted 1 (bind_eq_ok.2 ⟨outbox, hevent, rfl⟩)
        | failed e => exact absurd rfl (hfailed e)

/-- What becomes of the events of a finished operation: some of them are told. -/
theorem runs_tellOperations {events : List Event} :
    Runs id anyWrite (tellOperations events) s k fun r t l => r = .ok () ∧ l = k ∧
      ∃ told, told.Sublist events ∧ t = { s with outbox := s.outbox ++ told } ∧
        Grows s.outbox (s.outbox ++ told) := by
  induction events generalizing s with
  | nil =>
    refine runs_pure ⟨rfl, rfl, [], List.nil_sublist _, ?_, ?_⟩
    · rw [List.append_nil]
    · rw [List.append_nil]
      exact .refl _
  | cons event events ih =>
    refine runs_bind (runs_quietly (runs_appendEvent.mono ?_))
    rintro r t l ⟨rfl, h⟩
    rcases h with ⟨-, rfl, -⟩ | ⟨outbox, hevent, rfl, -⟩
    · refine ih.mono ?_
      rintro r t l' ⟨rfl, rfl, told, hsub, rfl, hgrows⟩
      exact ⟨rfl, rfl, told, hsub.cons _, rfl, hgrows⟩
    · have hone := Grows.append hevent
      refine ih.mono ?_
      rintro r t l' ⟨rfl, rfl, told, hsub, rfl, hgrows⟩
      refine ⟨rfl, rfl, ?_⟩
      rcases appendIdempotent_ok hevent with ⟨rfl, -⟩ | ⟨rfl, -⟩
      · exact ⟨told, hsub.cons _, rfl, hgrows⟩
      · refine ⟨event :: told, hsub.cons_cons _, ?_, ?_⟩
        · simp
        · have := hone.trans hgrows
          rwa [List.append_assoc] at this

variable (checkpointBytes : RuntimeCheckpoint → Nat)

/-- What a call answers when nothing fails. -/
def plannedAnswer (decide : RuntimeMemory → Except RuntimeCallError Decision) (m : RuntimeMemory)
    (outbox : List Event) : Except (Halt RuntimeCallError) (List Effect) :=
  match decide m with
  | .error e => .error (.failed e)
  | .ok d =>
    match appendAll outbox d.events with
    | .error error => .error (.failed (.runtime error))
    | .ok _ =>
      if checkpointBytes d.memory.checkpoint + 1 ≤ maxCheckpointBytes then .ok d.effects
      else .error (.failed .oversizeCheckpoint)

/-- The outbox of a call with the decision `d`: it has taken a first part of the events, or all of
them and some of the events of the finished operation. -/
inductive Written (before : List Event) (d : Decision) : List Event → Prop where
  | part {after : List Event} (n : Nat) (h : appendAll before (d.events.take n) = .ok after) :
      Written before d after
  | told {after told : List Event} (h : appendAll before d.events = .ok after)
      (hsub : told.Sublist d.operations) (hgrows : Grows after (after ++ told)) :
      Written before d (after ++ told)

theorem Written.grows {before after : List Event} {d : Decision} (h : Written before d after) :
    Grows before after := by
  cases h with
  | part n h => exact .appendAll h
  | told h _ hgrows => exact (Grows.appendAll h).trans hgrows

/-- What a call leaves that has decided `d`. -/
structure Performed (s : RuntimeDisk) (m : RuntimeMemory) (d : Decision)
    (planned r : Except (Halt RuntimeCallError) (List Effect)) (t : RuntimeDisk)
    (l : RuntimeMemory) : Prop where
  written : Written s.outbox d t.outbox
  answers : r = .error .interrupted ∨ r = planned
  /-- a failure -/
  kept : ∀ halt, r = .error halt → l = m ∧ (t.checkpoint = s.checkpoint ∨
    halt = .interrupted ∧ t.checkpoint = some d.memory.checkpoint)
  /-- a success -/
  done : ∀ effects, r = .ok effects → l = d.memory ∧ t.checkpoint = some d.memory.checkpoint ∧
    ∃ outbox told, appendAll s.outbox d.events = .ok outbox ∧ t.outbox = outbox ++ told

/-- What a call leaves. -/
structure Leaves (decide : RuntimeMemory → Except RuntimeCallError Decision) (m : RuntimeMemory)
    (s : RuntimeDisk) (r : Except (Halt RuntimeCallError) (List Effect)) (t : RuntimeDisk)
    (l : RuntimeMemory) : Prop where
  refused : ∀ e, decide m = .error e → r = .error (.failed e) ∧ t = s ∧ l = m
  performed : ∀ d, decide m = .ok d →
    Performed s m d (plannedAnswer checkpointBytes decide m s.outbox) r t l

variable {checkpointBytes} {decide : RuntimeMemory → Except RuntimeCallError Decision}
  {m l : RuntimeMemory} {d : Decision} {r : Except (Halt RuntimeCallError) (List Effect)}
  {t : RuntimeDisk}

theorem Leaves.of_performed (hdecide : decide m = .ok d)
    (h : Performed s m d (plannedAnswer checkpointBytes decide m s.outbox) r t l) :
    Leaves checkpointBytes decide m s r t l := by
  constructor
  · intro e he
    rw [hdecide] at he
    cases he
  · intro d' hd
    obtain rfl := Except.ok.inj (hdecide.symm.trans hd)
    exact h

theorem plannedAnswer_refused {e : RuntimeCallError} (hdecide : decide m = .error e) :
    plannedAnswer checkpointBytes decide m s.outbox = .error (.failed e) := by
  unfold plannedAnswer
  rw [hdecide]

theorem plannedAnswer_collision (hdecide : decide m = .ok d) {error : RuntimeError}
    (h : appendAll s.outbox d.events = .error error) :
    plannedAnswer checkpointBytes decide m s.outbox = .error (.failed (.runtime error)) := by
  unfold plannedAnswer
  rw [hdecide]
  simp only
  rw [h]

theorem plannedAnswer_ok (hdecide : decide m = .ok d) {outbox : List Event}
    (h : appendAll s.outbox d.events = .ok outbox) :
    plannedAnswer checkpointBytes decide m s.outbox =
      if checkpointBytes d.memory.checkpoint + 1 ≤ maxCheckpointBytes then .ok d.effects
      else .error (.failed .oversizeCheckpoint) := by
  unfold plannedAnswer
  rw [hdecide]
  simp only
  rw [h]

/-- A call that ends early with its memory as it was. -/
theorem Performed.early {planned : Except (Halt RuntimeCallError) (List Effect)}
    {halt : Halt RuntimeCallError} (hwritten : Written s.outbox d t.outbox)
    (hanswers : halt = .interrupted ∨ .error halt = planned)
    (hcheckpoint : t.checkpoint = s.checkpoint ∨
      halt = .interrupted ∧ t.checkpoint = some d.memory.checkpoint) :
    Performed s m d planned (.error halt) t m := by
  refine ⟨hwritten, hanswers.imp_left (congrArg _), ?_, ?_⟩
  · intro halt' hhalt
    obtain rfl := Except.error.inj hhalt
    exact ⟨rfl, hcheckpoint⟩
  · intro effects h
    cases h

/-- The checkpoint and the memory, when the events are written. -/
theorem runs_persist {outbox told : List Event} (hdecide : decide m = .ok d)
    (happend : appendAll s.outbox d.events = .ok outbox)
    (hwritten : Written s.outbox d (outbox ++ told)) :
    Runs id anyWrite
      (do persist checkpointBytes d.memory.checkpoint; remember d.memory; pure d.effects)
      { s with outbox := outbox ++ told } m (Leaves checkpointBytes decide m s) := by
  have hanswer : plannedAnswer checkpointBytes decide m s.outbox =
      if checkpointBytes d.memory.checkpoint + 1 ≤ maxCheckpointBytes then .ok d.effects
      else .error (.failed .oversizeCheckpoint) := plannedAnswer_ok hdecide happend
  refine runs_bind ?_
  unfold persist
  split
  · rename_i hbytes
    refine runs_atomically ⟨outbox ++ told, some d.memory.checkpoint⟩ rfl trivial ?_ ?_ ?_
    · refine runs_remember (runs_pure (.of_performed hdecide ⟨hwritten, .inr ?_, ?_, ?_⟩))
      · rw [hanswer, if_pos hbytes]
      · intro halt h
        cases h
      · intro effects _
        exact ⟨rfl, rfl, outbox, told, happend, rfl⟩
    · exact .of_performed hdecide (.early hwritten (.inl rfl) (.inr ⟨rfl, rfl⟩))
    · exact .of_performed hdecide (.early hwritten (.inl rfl) (.inl rfl))
  · rename_i hbytes
    refine runs_refuse (.of_performed hdecide (.early hwritten (.inr ?_) (.inl rfl)))
    rw [hanswer, if_neg hbytes]

variable (checkpointBytes decide m s) in
/-- **What a call leaves**, whatever fails. -/
theorem runs_perform :
    Runs id anyWrite (perform checkpointBytes decide) s m (Leaves checkpointBytes decide m s) := by
  unfold perform
  refine runs_remembered (runs_bind ?_)
  cases hdecide : decide m with
  | error e =>
    refine runs_refuse ⟨?_, ?_⟩
    · intro e' he
      obtain rfl := Except.error.inj (hdecide.symm.trans he)
      exact ⟨rfl, rfl, rfl⟩
    · intro d hd
      rw [hdecide] at hd
      cases hd
  | ok d =>
    refine runs_pure (runs_bind (runs_appendEvents.mono ?_))
    rintro r t l ⟨rfl, happended⟩
    cases happended with
    | all h =>
      refine runs_bind (runs_tellOperations.mono ?_)
      rintro r t l ⟨rfl, rfl, told, hsub, rfl, hgrows⟩
      exact runs_persist hdecide h (.told h hsub hgrows)
    | interrupted n h =>
      exact .of_performed hdecide (.early (.part n h) (.inl rfl) (.inl rfl))
    | collision n error h herror =>
      exact .of_performed hdecide
        (.early (.part n h) (.inr (plannedAnswer_collision hdecide herror).symm) (.inl rfl))

/-! ## Once more -/

/-- How an append ends, whatever the outbox is then. -/
def verdict (x : Ran (List Event)) : Ran Unit := x.map fun _ => ()

theorem verdict_semantic (outbox events : List Event) :
    verdict (appendAll (outbox.map Event.semantic) (events.map Event.semantic)) =
      verdict (appendAll outbox events) := by
  rw [← appendAll_semantic]
  cases appendAll outbox events <;> rfl

theorem appendAll_ok_semantic {outbox after events : List Event}
    (h : appendAll outbox events = .ok after) :
    appendAll (outbox.map Event.semantic) (events.map Event.semantic) =
      .ok (after.map Event.semantic) := by
  rw [← appendAll_semantic, h]
  rfl

/-- Behind a first part, appending everything is appending the rest. -/
theorem appendAll_rest {outbox after events : List Event} {n : Nat}
    (h : appendAll outbox (events.take n) = .ok after) :
    appendAll after events = appendAll outbox events := by
  have hagain := appendAll_again h []
  rw [List.append_nil] at hagain
  have hfrom : ∀ o, appendAll o (events.take n) = .ok after →
      appendAll o events = appendAll after (events.drop n) := by
    intro o ho
    calc appendAll o events = appendAll o (events.take n ++ events.drop n) := by
          rw [List.take_append_drop]
      _ = appendAll after (events.drop n) := by
          rw [appendAll_append, ho]
          rfl
  rw [hfrom after hagain, hfrom outbox h]

/-- **The same events once more** end as they would have ended at first. -/
theorem Written.again {before after events : List Event} (h : Written before d after)
    (hsame : events.map Event.semantic = d.events.map Event.semantic) :
    verdict (appendAll after events) = verdict (appendAll before events) := by
  rw [← verdict_semantic, ← verdict_semantic before, hsame]
  cases h with
  | part n h =>
    have hpart := appendAll_ok_semantic h
    rw [List.map_take] at hpart
    rw [appendAll_rest hpart]
  | told h _ _ =>
    have hall := appendAll_ok_semantic h
    rw [List.map_append, hall, appendAll_again hall]
    rfl

theorem mem_append {outbox after : List Event} {event : Event}
    (h : appendIdempotent outbox event = .ok after) :
    ∃ e ∈ after, e.semantic = event.semantic := by
  rcases appendIdempotent_ok h with ⟨rfl, existing, hfind, hsame⟩ | ⟨rfl, -⟩
  · exact ⟨existing, List.mem_of_find?_eq_some hfind, hsame⟩
  · exact ⟨event, List.mem_append_right _ List.mem_cons_self, rfl⟩

theorem mem_appendAll {outbox after events : List Event} {event : Event}
    (h : appendAll outbox events = .ok after) (hmem : event ∈ events) :
    ∃ e ∈ after, e.semantic = event.semantic := by
  induction events generalizing outbox with
  | nil => cases hmem
  | cons first events ih =>
    obtain ⟨middle, hfirst, hevents⟩ := bind_eq_ok.1 h
    rcases List.mem_cons.1 hmem with rfl | hmem
    · obtain ⟨e, he, hsame⟩ := mem_append hfirst
      exact ⟨e, (Grows.appendAll hevents).front.subset he, hsame⟩
    · exact ih hevents hmem

/-- The outbox has the event, once unless it had its id more often before. -/
structure RecordedOnce (before after : List Event) (event : Event) : Prop where
  recorded : ∃ e ∈ after, e.semantic = event.semantic
  once : idCount after event.eventId = max 1 (idCount before event.eventId)

theorem Grows.recordedOnce {before after : List Event} {event : Event} (h : Grows before after)
    (hmem : ∃ e ∈ after, e.semantic = event.semantic) : RecordedOnce before after event := by
  refine ⟨hmem, ?_⟩
  obtain ⟨e, he, hsame⟩ := hmem
  have hid : e.semantic.eventId = event.semantic.eventId := congrArg Event.eventId hsame
  have hpos : 0 < idCount after event.eventId := by
    unfold idCount
    exact List.countP_pos_iff.2 ⟨e, he, decide_eq_true hid⟩
  have hle : idCount before event.eventId ≤ idCount after event.eventId :=
    h.front.sublist.countP_le
  have hcount := h.count event.eventId
  omega

end Writing

/-! ## The calls -/

section Calls

variable {eventId : String → String}
variable {operations :
  ProcessorState → ProcessorState → Effect → ProcessorCommand → OperationTiming → List Event}
variable {checkpointBytes : RuntimeCheckpoint → Nat}

theorem RuntimeCall.run_perform (call : RuntimeCall) :
    call.run eventId operations checkpointBytes =
      perform checkpointBytes fun m => call.decide eventId operations m := by
  cases call <;> rfl

/-- The same command, perhaps at another time and with another operation around it. -/
inductive Resubmits : RuntimeCall → RuntimeCall → Prop where
  | apply (command : ProcessorCommand) (occurredAt occurredAt' : String)
      (operation operation' : Option (Effect × OperationTiming)) :
      Resubmits (.apply command occurredAt operation) (.apply command occurredAt' operation')
  | same (call : RuntimeCall) : Resubmits call call

theorem ofRan_eq_ok {α : Type} {x : Ran α} {a : α} : ofRan x = .ok a ↔ x = .ok a := by
  cases x <;> simp [ofRan]

theorem decideApply_events {m : RuntimeMemory} {command : ProcessorCommand} {occurredAt : String}
    {operation : Option (Effect × OperationTiming)} {d : Decision}
    (h : decideApply eventId operations m command occurredAt operation = .ok d) :
    ∃ effects, m.processor.apply command = .ok (d.memory.processor, effects) ∧
      d.events = projectProcessorTransition eventId occurredAt m.processor.state
        d.memory.processor.state command := by
  unfold decideApply at h
  obtain ⟨t, ht, h⟩ := bind_eq_ok.1 h
  obtain ⟨ack, -, -, happly, -, hevents⟩ := ProcessorRuntime.transition_spec (ofRan_eq_ok.1 ht)
  cases operation with
  | none =>
    obtain rfl := Except.ok.inj h
    exact ⟨t.effects, happly, hevents⟩
  | some operation =>
    obtain rfl := Except.ok.inj h
    exact ⟨t.effects, happly, hevents⟩

theorem Resubmits.events {call again : RuntimeCall} (h : Resubmits call again) {m : RuntimeMemory}
    {d d' : Decision} (hd : call.decide eventId operations m = .ok d)
    (hd' : again.decide eventId operations m = .ok d') :
    d'.events.map Event.semantic = d.events.map Event.semantic := by
  cases h with
  | apply command now now' operation operation' =>
    obtain ⟨effects, happly, hevents⟩ := decideApply_events hd
    obtain ⟨effects', happly', hevents'⟩ := decideApply_events hd'
    obtain ⟨hsame, -⟩ := Prod.mk.inj (Except.ok.inj (happly.symm.trans happly'))
    rw [hevents, hevents', projectProcessorTransition_semantic,
      projectProcessorTransition_semantic, hsame]
  | same =>
    obtain rfl := Except.ok.inj (hd.symm.trans hd')
    rfl

variable (eventId operations checkpointBytes) in
theorem leaves_run (call : RuntimeCall) (m : RuntimeMemory) (s : RuntimeDisk)
    (faults : List (Option Fault)) :
    Leaves checkpointBytes (fun m => call.decide eventId operations m) m s
      ((call.run eventId operations checkpointBytes).run ⟨s, m, faults, []⟩).1
      ((call.run eventId operations checkpointBytes).run ⟨s, m, faults, []⟩).2.disk
      ((call.run eventId operations checkpointBytes).run ⟨s, m, faults, []⟩).2.memory := by
  rw [call.run_perform]
  obtain ⟨⟨passed, t, -, -, hdisk, hleaves⟩, -⟩ :=
    runs_perform s checkpointBytes (fun m => call.decide eventId operations m) m faults []
  have hdisk : ((perform checkpointBytes fun m => call.decide eventId operations m).run
      ⟨s, m, faults, []⟩).2.disk = t := hdisk
  rw [hdisk]
  exact hleaves

variable (eventId operations checkpointBytes) in
/-- Undisturbed, a call answers as planned. -/
theorem run_undisturbed (call : RuntimeCall) (m : RuntimeMemory) (s : RuntimeDisk) :
    ((call.run eventId operations checkpointBytes).run ⟨s, m, [], []⟩).1 =
      plannedAnswer checkpointBytes (fun m => call.decide eventId operations m) m s.outbox := by
  have hleaves := leaves_run eventId operations checkpointBytes call m s []
  have hends : ((call.run eventId operations checkpointBytes).run ⟨s, m, [], []⟩).1 ≠
      .error .interrupted := by
    rw [call.run_perform]
    exact (runs_perform s checkpointBytes _ m).unhindered.1
  cases hdecide : call.decide eventId operations m with
  | error e =>
    rw [(hleaves.refused e hdecide).1]
    exact (plannedAnswer_refused hdecide).symm
  | ok d => exact ((hleaves.performed d hdecide).answers).resolve_left hends

theorem plannedAnswer_verdict {decide : RuntimeMemory → Except RuntimeCallError Decision}
    {m : RuntimeMemory} {outbox outbox' : List Event}
    (h : ∀ d, decide m = .ok d →
      verdict (appendAll outbox d.events) = verdict (appendAll outbox' d.events)) :
    plannedAnswer checkpointBytes decide m outbox =
      plannedAnswer checkpointBytes decide m outbox' := by
  unfold plannedAnswer
  cases hdecide : decide m with
  | error e => rfl
  | ok d =>
    have hsame := h d hdecide
    simp only
    cases happend : appendAll outbox d.events with
    | error error =>
      rw [happend] at hsame
      cases happend' : appendAll outbox' d.events with
      | error error' =>
        rw [happend'] at hsame
        obtain rfl : error = error' := Except.error.inj hsame
        rfl
      | ok after' =>
        rw [happend'] at hsame
        cases hsame
    | ok after =>
      rw [happend] at hsame
      cases happend' : appendAll outbox' d.events with
      | error error' =>
        rw [happend'] at hsame
        cases hsame
      | ok after' => rfl

/-- What a failed call leaves behind, and what the same command does then. -/
structure FailsSafely (eventId : String → String)
    (operations :
      ProcessorState → ProcessorState → Effect → ProcessorCommand → OperationTiming → List Event)
    (checkpointBytes : RuntimeCheckpoint → Nat) (call : RuntimeCall) (m : RuntimeMemory)
    (s : RuntimeDisk) (halt : Halt RuntimeCallError) (t : RuntimeDisk) (l : RuntimeMemory) :
    Prop where
  memory : l = m
  /-- the previous checkpoint, or the call's own, whose replacement was not confirmed -/
  checkpoint : t.checkpoint = s.checkpoint ∨ halt = .interrupted ∧
    ∃ d, call.decide eventId operations m = .ok d ∧ t.checkpoint = some d.memory.checkpoint
  /-- nothing, a first part of the events that were not there, or all of them and some of the
  events of the finished operation -/
  outbox : t.outbox = s.outbox ∨ ∃ d news, call.decide eventId operations m = .ok d ∧
    t.outbox = s.outbox ++ news ∧ (news <+: unseen s.outbox d.events ∨
      ∃ told, told.Sublist d.operations ∧ news = unseen s.outbox d.events ++ told)
  /-- the same command answers what it would have answered at first -/
  answers : ∀ again, Resubmits call again →
    ((again.run eventId operations checkpointBytes).run ⟨t, l, [], []⟩).1 =
      ((again.run eventId operations checkpointBytes).run ⟨s, m, [], []⟩).1
  /-- and when it returns, whatever happened to it, every event is recorded once -/
  records : ∀ again, Resubmits call again → ∀ faults effects,
    ((again.run eventId operations checkpointBytes).run ⟨t, l, faults, []⟩).1 = .ok effects →
    ∃ d', again.decide eventId operations m = .ok d' ∧
      (∀ d, call.decide eventId operations m = .ok d →
        d'.events.map Event.semantic = d.events.map Event.semantic) ∧
      ∀ event ∈ d'.events, RecordedOnce s.outbox
        ((again.run eventId operations checkpointBytes).run ⟨t, l, faults, []⟩).2.disk.outbox event

theorem Written.news {before after : List Event} {d : Decision} (h : Written before d after) :
    ∃ news, after = before ++ news ∧ (news <+: unseen before d.events ∨
      ∃ told, told.Sublist d.operations ∧ news = unseen before d.events ++ told) := by
  cases h with
  | part n h => exact ⟨_, appendAll_unseen h, .inl (unseen_take _ _ _)⟩
  | told h hsub _ =>
    rw [appendAll_unseen h, List.append_assoc]
    exact ⟨_, rfl, .inr ⟨_, hsub, rfl⟩⟩

/-- A call that returns has its events in the outbox. -/
theorem Leaves.recorded {decide : RuntimeMemory → Except RuntimeCallError Decision}
    {m l : RuntimeMemory} {s t : RuntimeDisk} {effects : List Effect}
    (h : Leaves checkpointBytes decide m s (.ok effects) t l) :
    ∃ d, decide m = .ok d ∧ Grows s.outbox t.outbox ∧
      ∀ event ∈ d.events, ∃ e ∈ t.outbox, e.semantic = event.semantic := by
  cases hdecide : decide m with
  | error e => cases (h.refused e hdecide).1
  | ok d =>
    have hperformed := h.performed d hdecide
    obtain ⟨-, -, outbox, told, happend, hout⟩ := hperformed.done effects rfl
    refine ⟨d, rfl, hperformed.written.grows, fun event hmem => ?_⟩
    obtain ⟨e, he, hsame⟩ := mem_appendAll happend hmem
    exact ⟨e, hout ▸ List.mem_append_left _ he, hsame⟩

theorem Leaves.failsSafely {call : RuntimeCall} {m l : RuntimeMemory} {s t : RuntimeDisk}
    {halt : Halt RuntimeCallError}
    (hleaves : Leaves checkpointBytes (fun m => call.decide eventId operations m) m s
      (.error halt) t l) :
    FailsSafely eventId operations checkpointBytes call m s halt t l := by
  -- either nothing was decided, and nothing has changed, or the decision says what has
  have hmemory : l = m := by
    cases hdecide : call.decide eventId operations m with
    | error e => exact (hleaves.refused e hdecide).2.2
    | ok d => exact ((hleaves.performed d hdecide).kept halt rfl).1
  have hgrows : Grows s.outbox t.outbox := by
    cases hdecide : call.decide eventId operations m with
    | error e => exact (hleaves.refused e hdecide).2.1 ▸ .refl _
    | ok d => exact (hleaves.performed d hdecide).written.grows
  subst hmemory
  refine ⟨rfl, ?_, ?_, ?_, ?_⟩
  · cases hdecide : call.decide eventId operations l with
    | error e => exact .inl (congrArg _ (hleaves.refused e hdecide).2.1)
    | ok d =>
      refine ((hleaves.performed d hdecide).kept halt rfl).2.imp_right ?_
      exact fun ⟨hhalt, hcheckpoint⟩ => ⟨hhalt, d, rfl, hcheckpoint⟩
  · cases hdecide : call.decide eventId operations l with
    | error e => exact .inl (congrArg _ (hleaves.refused e hdecide).2.1)
    | ok d =>
      obtain ⟨news, hnews, hcase⟩ := (hleaves.performed d hdecide).written.news
      exact .inr ⟨d, news, rfl, hnews, hcase⟩
  · intro again hagain
    rw [run_undisturbed, run_undisturbed]
    refine plannedAnswer_verdict fun d' hd' => ?_
    cases hdecide : call.decide eventId operations l with
    | error e => rw [(hleaves.refused e hdecide).2.1]
    | ok d => exact (hleaves.performed d hdecide).written.again (hagain.events hdecide hd')
  · intro again hagain faults' effects hok
    have hleaves' := leaves_run eventId operations checkpointBytes again l t faults'
    rw [hok] at hleaves'
    obtain ⟨d', hd', hgrows', hrecorded⟩ := hleaves'.recorded
    refine ⟨d', hd', fun d hd => hagain.events hd hd', fun event hmem => ?_⟩
    exact (hgrows.trans hgrows').recordedOnce (hrecorded event hmem)

/-- **A call that fails leaves the runtime as it was**, up to some of its events and an unconfirmed
checkpoint, and the same command may be given again: it answers what it would have answered, and
every event is recorded once. -/
theorem failed_call (eventId : String → String)
    (operations :
      ProcessorState → ProcessorState → Effect → ProcessorCommand → OperationTiming → List Event)
    (checkpointBytes : RuntimeCheckpoint → Nat) (call : RuntimeCall) (m : RuntimeMemory)
    (s : RuntimeDisk) (faults : List (Option Fault)) (halt : Halt RuntimeCallError)
    (h : ((call.run eventId operations checkpointBytes).run ⟨s, m, faults, []⟩).1 =
      .error halt) :
    FailsSafely eventId operations checkpointBytes call m s halt
      ((call.run eventId operations checkpointBytes).run ⟨s, m, faults, []⟩).2.disk
      ((call.run eventId operations checkpointBytes).run ⟨s, m, faults, []⟩).2.memory := by
  have hleaves := leaves_run eventId operations checkpointBytes call m s faults
  rw [h] at hleaves
  exact hleaves.failsSafely

end Calls

namespace RuntimeSample

def noOperations :
    ProcessorState → ProcessorState → Effect → ProcessorCommand → OperationTiming → List Event :=
  fun _ _ _ _ _ => []

/-- A fresh runtime that has to reconcile its inbox. -/
def memory : RuntimeMemory :=
  { processor := Processor.fresh
    pending := (∅ : StringMap Effect).insert "reconcile-inbox" (.reconcileInbox 3) }

def disk : RuntimeDisk := { checkpoint := some memory.checkpoint }

/-- The effect is acknowledged. -/
def complete (faults : List (Option Fault)) :
    Except (Halt RuntimeCallError) (List Effect) × Machine RuntimeDisk RuntimeMemory :=
  ((RuntimeCall.complete "reconcile-inbox").run id noOperations fun _ => 200).run
    ⟨disk, memory, faults, []⟩

end RuntimeSample

/-- A checkpoint that cannot be written. -/
theorem failed_call_refused :
    FailsSafely id RuntimeSample.noOperations (fun _ => 200) (.complete "reconcile-inbox")
      RuntimeSample.memory RuntimeSample.disk .interrupted
      (RuntimeSample.complete [some .refused]).2.disk
      (RuntimeSample.complete [some .refused]).2.memory :=
  failed_call id RuntimeSample.noOperations (fun _ => 200) (.complete "reconcile-inbox")
    RuntimeSample.memory RuntimeSample.disk [some .refused] .interrupted (by decide)

/-- **An error may come with the new checkpoint**: the replacement happened, but is not confirmed;
the effect is pending in the memory and gone from the disk. -/
theorem failed_call_written :
    (RuntimeSample.complete [some .unconfirmed]).1 = .error .interrupted ∧
      (RuntimeSample.complete [some .unconfirmed]).2.memory.pending.size = 1 ∧
      (RuntimeSample.complete [some .unconfirmed]).2.disk.checkpoint.map (·.pending.size) =
        some 0 ∧
      RuntimeSample.disk.checkpoint.map (·.pending.size) = some 1 := by
  decide

end Orchestrail
