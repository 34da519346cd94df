import Orchestrail.Spec.Phase0

/-!
# What a plan of Phase 0 asks for

A plan without blockers decides every task once. `Verdict` says what the evidence about one
descriptor calls for, and the actions that name its task are exactly these; a queue row without a
descriptor is returned if the engine had captured it, and no other action names a task.
-/

namespace Orchestrail.Phase0

open Readiness (QueueEntry)
open Manifest (BatchTask BatchState)
open Orchestrail.QueueEntry (slashes)
open Pushed

/-! ## Entries with ids of their own -/

section Keyed

variable {α β : Type} {idOf : α → String} {l : List α} {id : String}

theorem uniqueById_eq_some {a : α} (h : uniqueById idOf l id = some a) : a ∈ l ∧ idOf a = id :=
  ⟨List.mem_of_find?_eq_some h, by simpa using List.find?_some h⟩

theorem uniqueById_eq_none : uniqueById idOf l id = none ↔ ∀ a ∈ l, idOf a ≠ id := by
  simp [uniqueById]

/-- Where no id comes twice, an entry is the one that is found under its id. -/
theorem uniqueById_self (hl : (l.map idOf).Nodup) {a : α} (ha : a ∈ l) :
    uniqueById idOf l (idOf a) = some a := by
  cases h : uniqueById idOf l (idOf a) with
  | none => exact absurd rfl (uniqueById_eq_none.1 h a ha)
  | some b =>
    obtain ⟨hb, hid⟩ := uniqueById_eq_some h
    rw [List.inj_on_of_nodup_map hl hb ha hid]

/-- What the entries push under a tag of their own is found under it again. -/
theorem filter_flatMap_tagged (id : String) (tag : β → Option String) (f : α → List β)
    (hl : (l.map idOf).Nodup) (hf : ∀ a ∈ l, ∀ b ∈ f a, tag b = some (idOf a)) :
    (l.flatMap f).filter (tag · = some id) = ((uniqueById idOf l id).map f).getD [] := by
  induction l with
  | nil => rfl
  | cons a l ih =>
    obtain ⟨hne, hl⟩ := List.nodup_cons.1 (by simpa using hl : (idOf a :: l.map idOf).Nodup)
    have hrest := ih hl fun b hb => hf b (List.mem_cons_of_mem _ hb)
    have hhead := hf a List.mem_cons_self
    rw [List.flatMap_cons, List.filter_append, hrest]
    by_cases hid : idOf a = id
    · have hnone : uniqueById idOf l id = none := by
        refine uniqueById_eq_none.2 fun b hb he => hne ?_
        exact List.mem_map.2 ⟨b, hb, he.trans hid.symm⟩
      have hall : (f a).filter (tag · = some id) = f a :=
        List.filter_eq_self.2 fun b hb => by simp [hhead b hb, hid]
      have hfirst : uniqueById idOf (a :: l) id = some a := by simp [uniqueById, hid]
      simp [hall, hnone, hfirst]
    · have hall : (f a).filter (tag · = some id) = [] :=
        List.filter_eq_nil_iff.2 fun b hb => by simp [hhead b hb, hid]
      simp [hall, uniqueById, hid]

end Keyed

theorem validateUnique_eq_nil {kind : String} {seen ids : List String} :
    validateUnique kind seen ids = [] ↔ ids.Nodup ∧ ∀ id ∈ ids, id ∉ seen := by
  induction ids generalizing seen with
  | nil => simp [validateUnique]
  | cons id ids ih =>
    unfold validateUnique
    split
    · rename_i hid
      simpa using fun _ _ h => absurd hid h
    · rename_i hid
      rw [ih, List.nodup_cons]
      constructor
      · rintro ⟨hnd, hseen⟩
        refine ⟨⟨fun h => hseen id h List.mem_cons_self, hnd⟩, ?_⟩
        exact List.forall_mem_cons.2 ⟨hid, fun x hx h => hseen x hx (List.mem_cons_of_mem _ h)⟩
      · rintro ⟨⟨hne, hnd⟩, hseen⟩
        refine ⟨hnd, fun x hx h => ?_⟩
        rcases List.mem_cons.1 h with rfl | h
        exacts [hne hx, hseen x (List.mem_cons_of_mem _ hx) h]

/-! ## What a step pushes -/

@[simp] theorem actions_append (p q : Pushed) : (p ++ q).actions = p.actions ++ q.actions := rfl

@[simp] theorem blockers_append (p q : Pushed) : (p ++ q).blockers = p.blockers ++ q.blockers := rfl

@[simp] theorem actions_act (a : RecoveryAction) : (act a).actions = [a] := rfl

@[simp] theorem blockers_act (a : RecoveryAction) : (act a).blockers = [] := rfl

@[simp] theorem actions_block (b : String) : (block b).actions = [] := rfl

@[simp] theorem blockers_block (b : String) : (block b).blockers = [b] := rfl

/-- The task an action is about. -/
def RecoveryAction.taskId : RecoveryAction → Option String
  | .returnOrphanedQueue id _ | .restoreQueueCapture id .. | .removeUncapturedDescriptor id _
  | .ensureTaskWorkspace id .. | .resumeTask id _ | .requeueConflict id _ | .accountPublished id
  | .accountDone id => some id
  | .continueIntegration .. => none

/-! ## The verdict on one descriptor -/

section Verdict

variable (s : Snapshot) (inv : RecoveryInventory) (d : Decoded)

/-- The row of a task. -/
def Snapshot.row (id : String) : Option QueueEntry := uniqueById QueueEntry.id s.queue id

/-- The state its row has, if there is a row and its state is known. -/
def Snapshot.rowState (id : String) : Option TaskState := (s.row id).bind (·.state)

/-- The descriptor is of a task of the active batch. -/
structure InBatch (batch : BatchState) (batchId : List Char) (task : BatchTask) : Prop where
  manifest : s.batch = some batch
  identity : batch.batchId = some batchId
  named : ∀ id, d.batchId = some id → id = batchId
  task : uniqueById BatchTask.id batch.tasks d.id = some task

/-- The descriptor reserves a task that nobody has captured. -/
def Uncaptured : Prop :=
  d.state = some .notStarted ∨
  isLive d = true ∧ (s.batch = none ∧ isUncaptured (s.rowState d.id) = true ∨
    ∃ batch batchId, s.batch = some batch ∧ batch.batchId = some batchId ∧
      ∀ task ∈ batch.tasks, task.id ≠ d.id)

/-- The repair of a row that lost its capture. -/
def captureOf (batchId branch worktree : List Char) : List RecoveryAction :=
  if isUncaptured (s.rowState d.id) then [.restoreQueueCapture d.id batchId branch worktree] else []

def workspaceOf (observation : TaskRepositoryObservation) : List RecoveryAction :=
  if observation.branchExists && observation.workspacePresent then []
  else [.ensureTaskWorkspace d.id (taskBranch d.id) (!observation.branchExists)]

/-- The evidence for where a live task continues. -/
inductive Resumes (observation : TaskRepositoryObservation) : TaskResumePoint → Prop
  | fresh : d.state = some .working → observation.commitsAfterBase = false →
      Resumes observation .implementation
  | committed : d.state = some .working → observation.commitsAfterBase = true →
      Resumes observation .implementationWithCommittedWork
  | review : d.state = some .inReview → observation.commitsAfterBase = true →
      Resumes observation (.review d.reviewSha d.implementationAuthors.getLast?)

/-- No quarantine attempt stands on a row whose capture is lost. -/
def Unquarantined : Prop :=
  ∀ row, s.row d.id = some row → isUncaptured row.state = true → row.attempt = none

/-- **What the evidence about one descriptor calls for.** -/
inductive Verdict : List RecoveryAction → Prop
  | uncaptured {reason} : Uncaptured s d → Verdict [.removeUncapturedDescriptor d.id reason]
  | resumed {batch batchId task base worktree observation point} :
      isLive d = true → InBatch s d batch batchId task → batch.base = some base →
      slashes worktree = taskWorktree d.id → Unquarantined s d →
      inv.tasks[d.id]? = some observation → Resumes d observation point →
      Verdict (captureOf s d batchId (taskBranch d.id) worktree ++ workspaceOf d observation ++
        [.resumeTask d.id point])
  | ready {batch batchId task} :
      d.state = some .ready → InBatch s d batch batchId task → Unquarantined s d →
      Verdict (captureOf s d batchId (d.branch.getD (taskBranch d.id))
        (d.worktree.getD (taskWorktree d.id)))
  | requeued : d.state = some .conflict → s.rowState d.id ≠ some .escalated →
      Verdict [.requeueConflict d.id ((s.row d.id).bind (·.attempt))]
  | returned : d.state = some .conflict → s.rowState d.id = some .escalated → Verdict []
  | escalated : d.state = some .escalated → Verdict []
  | merged {batch batchId task} : d.state = some .merged → InBatch s d batch batchId task →
      Verdict []
  | published {batch batchId task} : d.state = some .published → InBatch s d batch batchId task →
      Verdict [.accountPublished d.id]
  | done {batch batchId task} : d.state = some .done → InBatch s d batch batchId task →
      s.rowState d.id ∈ [none, some .working, some .published, some .done] →
      Verdict [.accountDone d.id]

end Verdict

variable {s : Snapshot} {inv : RecoveryInventory} {d : Decoded}

theorem not_foreign {batchId : List Char} :
    foreign d batchId = false ↔ ∀ id, d.batchId = some id → id = batchId := by
  unfold foreign
  cases d.batchId <;> simp

theorem belongsToActiveBatch_eq_ok (h : belongsToActiveBatch d s = .ok ()) :
    ∃ batch batchId task, InBatch s d batch batchId task := by
  unfold belongsToActiveBatch at h
  split at h
  · cases h
  · rename_i batch hbatch
    split at h
    · cases h
    · rename_i batchId hid
      split_ifs at h with hforeign hnone
      obtain ⟨task, htask⟩ := Option.ne_none_iff_exists'.1 (by simpa using hnone)
      exact ⟨batch, batchId, task, hbatch, hid, not_foreign.1 (by simpa using hforeign), htask⟩

theorem restoreQueueCapture_eq {batchId branch worktree : List Char}
    (h : (restoreQueueCaptureIfLost (s.row d.id) d batchId branch worktree).blockers = []) :
    Unquarantined s d ∧
      (restoreQueueCaptureIfLost (s.row d.id) d batchId branch worktree).actions =
        captureOf s d batchId branch worktree := by
  unfold restoreQueueCaptureIfLost at h ⊢
  split_ifs at h ⊢ with hattempt hlost
  · simp at h
  all_goals
    refine ⟨fun row hrow hun => ?_, by simp [captureOf, Snapshot.rowState, hlost]⟩
    simpa [hrow, hun] using hattempt

theorem taskCoordinates_eq_ok {task : BatchTask} {x : List Char × List Char}
    (h : taskCoordinates d task = .ok x) :
    x.1 = taskBranch d.id ∧ slashes x.2 = taskWorktree d.id := by
  unfold taskCoordinates at h
  simp only at h
  split_ifs at h with hbranch hworktree
  obtain rfl := Except.ok.inj h
  exact ⟨not_not.1 hbranch, not_not.1 hworktree⟩

/-- The review flag is the state of a live descriptor. -/
def stateOf (review : Bool) : TaskState := if review then .inReview else .working

theorem resumeLive_eq {review : Bool} {base : List Char} (hstate : d.state = some (stateOf review))
    (h : (resumeLive review d (taskBranch d.id) base inv).blockers = []) :
    ∃ observation point, inv.tasks[d.id]? = some observation ∧ Resumes d observation point ∧
      (resumeLive review d (taskBranch d.id) base inv).actions =
        workspaceOf d observation ++ [.resumeTask d.id point] := by
  unfold resumeLive at h ⊢
  split at h
  · simp at h
  · rename_i observation hobs
    cases hpoint : resumePoint review d observation with
    | error blocker => simp [hpoint] at h
    | ok point =>
      refine ⟨observation, point, hobs, ?_, ?_⟩
      · unfold resumePoint at hpoint
        split at hpoint
        · rename_i hc; obtain rfl := Except.ok.inj hpoint; exact .committed hstate hc
        · rename_i hc; obtain rfl := Except.ok.inj hpoint; exact .fresh hstate hc
        · rename_i hc; obtain rfl := Except.ok.inj hpoint; exact .review hstate hc
        · cases hpoint
      · simp only [actions_append, actions_act, workspaceOf]
        split_ifs <;> rfl

theorem isLive_of_state {review : Bool} (h : d.state = some (stateOf review)) :
    isLive d = true := by
  cases review <;> simp [isLive, h, stateOf]

theorem reconcileLive_verdict {review : Bool} (hstate : d.state = some (stateOf review))
    (h : (reconcileLive review d (s.row d.id) s inv).blockers = []) :
    Verdict s inv d (reconcileLive review d (s.row d.id) s inv).actions := by
  have hlive := isLive_of_state hstate
  unfold reconcileLive at h ⊢
  split at h
  · rename_i hbatch
    split_ifs at h ⊢ with hun
    · exact .uncaptured (.inr ⟨hlive, .inl ⟨hbatch, hun⟩⟩)
    · simp at h
  · rename_i batch hbatch
    split at h
    · simp at h
    · simp at h
    · rename_i batchId base hid hbase
      split_ifs at h ⊢ with hforeign
      · simp at h
      · cases htask : uniqueById BatchTask.id batch.tasks d.id with
        | none =>
          have hnone := uniqueById_eq_none.1 htask
          exact .uncaptured (.inr ⟨hlive, .inr ⟨batch, batchId, hbatch, hid, hnone⟩⟩)
        | some task =>
          have hin : InBatch s d batch batchId task :=
            ⟨hbatch, hid, not_foreign.1 (by simpa using hforeign), htask⟩
          simp only [htask] at h ⊢
          cases hcoord : taskCoordinates d task with
          | error blocker => simp [hcoord] at h
          | ok x =>
            obtain ⟨hbranch, hworktree⟩ := taskCoordinates_eq_ok hcoord
            simp only [hcoord, hbranch, blockers_append, List.append_eq_nil_iff,
              actions_append] at h ⊢
            obtain ⟨hq, hcapture⟩ := restoreQueueCapture_eq h.1
            obtain ⟨observation, point, hobs, hpoint, hlast⟩ := resumeLive_eq hstate h.2
            rw [hcapture, hlast, ← List.append_assoc]
            exact .resumed hlive hin hbase hworktree hq hobs hpoint

theorem reconcileReady_verdict (hstate : d.state = some .ready)
    (h : (reconcileReady d (s.row d.id) s).blockers = []) :
    Verdict s inv d (reconcileReady d (s.row d.id) s).actions := by
  unfold reconcileReady at h ⊢
  split at h
  · simp at h
  · rename_i hok
    obtain ⟨batch, batchId, task, hin⟩ := belongsToActiveBatch_eq_ok hok
    simp only [hin.manifest, Option.bind_some, hin.identity] at h ⊢
    by_cases hun : isUncaptured (s.rowState d.id) = true
    · have hun' : isUncaptured ((s.row d.id).bind (·.state)) = true := hun
      rw [if_pos hun'] at h ⊢
      obtain ⟨hq, hcapture⟩ := restoreQueueCapture_eq h
      rw [hcapture]
      exact .ready hstate hin hq
    · have hun' : ¬isUncaptured ((s.row d.id).bind (·.state)) = true := hun
      rw [if_neg hun']
      have hq : Unquarantined s d := fun row hrow hrowun => by
        simp [hrow, hrowun] at hun'
      have hready : Verdict s inv d _ := .ready hstate hin hq
      simpa [captureOf, hun] using hready

/-- A task of the active batch pushes what it asks for. -/
theorem inActiveBatch_eq {pushed : Pushed} (h : (inActiveBatch d s pushed).blockers = []) :
    (∃ batch batchId task, InBatch s d batch batchId task) ∧ inActiveBatch d s pushed = pushed := by
  unfold inActiveBatch at h ⊢
  split at h
  · simp at h
  · rename_i hok
    exact ⟨belongsToActiveBatch_eq_ok hok, rfl⟩

/-- **A descriptor pushes its verdict, or a blocker.** -/
theorem reconcileDescriptor_verdict (h : (reconcileDescriptor s inv d).blockers = []) :
    Verdict s inv d (reconcileDescriptor s inv d).actions := by
  have hrow : uniqueById QueueEntry.id s.queue d.id = s.row d.id := rfl
  unfold reconcileDescriptor at h ⊢
  simp only [hrow] at h ⊢
  cases hstate : d.state with
  | none => simp [hstate] at h
  | some state =>
    cases state with
    | notStarted => exact .uncaptured (.inl hstate)
    | working =>
      have hlive : d.state = some (stateOf false) := hstate
      simp only [hstate] at h
      exact reconcileLive_verdict hlive h
    | inReview =>
      have hlive : d.state = some (stateOf true) := hstate
      simp only [hstate] at h
      exact reconcileLive_verdict hlive h
    | ready => simp only [hstate] at h; exact reconcileReady_verdict hstate h
    | escalated => exact .escalated hstate
    | conflict =>
      simp only
      split_ifs with hesc
      exacts [.returned hstate hesc, .requeued hstate hesc]
    | merged =>
      simp only [hstate] at h ⊢
      obtain ⟨⟨batch, batchId, task, hin⟩, heq⟩ := inActiveBatch_eq h
      rw [heq]
      exact .merged hstate hin
    | published =>
      simp only [hstate] at h ⊢
      obtain ⟨⟨batch, batchId, task, hin⟩, heq⟩ := inActiveBatch_eq h
      rw [heq]
      exact .published hstate hin
    | done =>
      simp only [hstate] at h ⊢
      obtain ⟨⟨batch, batchId, task, hin⟩, heq⟩ := inActiveBatch_eq h
      rw [heq] at h ⊢
      split_ifs at h ⊢ with hq
      · exact .done hstate hin hq
      · simp at h

theorem Verdict.tagged {l : List RecoveryAction} (h : Verdict s inv d l) :
    ∀ a ∈ l, a.taskId = some d.id := by
  have hcapture : ∀ batchId branch worktree, ∀ a ∈ captureOf s d batchId branch worktree,
      a.taskId = some d.id := by
    intro batchId branch worktree a ha
    unfold captureOf at ha
    split_ifs at ha
    · obtain rfl := List.mem_singleton.1 ha
      rfl
    · cases ha
  have hworkspace : ∀ observation, ∀ a ∈ workspaceOf d observation, a.taskId = some d.id := by
    intro observation a ha
    unfold workspaceOf at ha
    split_ifs at ha
    · cases ha
    · obtain rfl := List.mem_singleton.1 ha
      rfl
  cases h with
  | ready => exact hcapture _ _ _
  | resumed =>
    intro a ha
    simp only [List.mem_append, List.mem_singleton] at ha
    rcases ha with (ha | ha) | rfl
    exacts [hcapture _ _ _ a ha, hworkspace _ a ha, rfl]
  | returned | escalated | merged => simp
  | uncaptured | requeued | published | done => simp [RecoveryAction.taskId]

/-! ## The whole plan -/

/-- What the row of a task without a descriptor calls for. -/
def orphanOf (row : QueueEntry) : List RecoveryAction :=
  if row.state.any isCaptured then [.returnOrphanedQueue row.id row.attempt] else []

theorem reconcileQueue_eq {row : QueueEntry} (h : (reconcileQueue s row).blockers = []) :
    (reconcileQueue s row).actions =
      if (uniqueById Descriptor.Parsed.id s.descriptors row.id).isSome then []
      else orphanOf row := by
  unfold reconcileQueue orphanOf at *
  cases hstate : row.state with
  | none => simp [hstate] at h
  | some state =>
    simp only [Option.any_some]
    split_ifs <;> rfl

/-- The integration names no task, and blocks with a blocker only. -/
theorem reconcileIntegration_spec :
    (∀ a ∈ (reconcileIntegration s inv).2.actions, ∃ batchId point,
      a = .continueIntegration batchId point ∧ s.batch.bind (·.batchId) = some batchId) ∧
    ((reconcileIntegration s inv).1 = .blocked ↔ (reconcileIntegration s inv).2.blockers ≠ []) := by
  unfold reconcileIntegration reconcileBranch
  cases hbatch : s.batch with
  | none => dsimp only; split_ifs <;> simp
  | some batch =>
    dsimp only
    cases hid : batch.batchId with
    | none => simp
    | some batchId =>
      dsimp only
      cases inv.integration with
      | none => dsimp only; split_ifs <;> simp
      | some integration =>
        dsimp only
        cases integration.publication <;> dsimp only <;> split_ifs <;> simp [hid]

/-- What a plan without blockers rests on. -/
structure Clear (s : Snapshot) (inv : RecoveryInventory) : Prop where
  rows : (s.queue.map (·.id)).Nodup
  ids : (s.descriptors.map Descriptor.Parsed.id).Nodup
  queue : ∀ row ∈ s.queue, (reconcileQueue s row).blockers = []
  descriptors : ∀ d ∈ s.descriptors, (reconcileDescriptor s inv d).blockers = []
  integration : (reconcileIntegration s inv).2.blockers = []

theorem plan_cases (s : Snapshot) (inv : RecoveryInventory) :
    (planRecovery s inv).blockers ≠ [] ∧ (planRecovery s inv).disposition = .blocked ∨
    Clear s inv ∧ (planRecovery s inv).blockers = [] ∧
      (planRecovery s inv).disposition = (reconcileIntegration s inv).1 ∧
      (planRecovery s inv).actions =
        s.queue.flatMap (fun row => (reconcileQueue s row).actions) ++
          s.descriptors.flatMap (fun d => (reconcileDescriptor s inv d).actions) ++
          (reconcileIntegration s inv).2.actions := by
  unfold planRecovery
  by_cases ht : (reconcileTasks s inv).blockers = []
  · rw [if_pos ht]
    by_cases hi : (reconcileIntegration s inv).2.blockers = []
    · right
      have ht' := ht
      simp only [reconcileTasks, blockers_append, collect, List.append_eq_nil_iff,
        List.flatMap_eq_nil_iff, validateSnapshotIdentity, validateUnique_eq_nil] at ht'
      obtain ⟨⟨⟨⟨hrows, hids⟩, -⟩, hqueue⟩, hdesc⟩ := ht'
      refine ⟨⟨hrows.1, hids.1, hqueue, hdesc, hi⟩, by simp [ht, hi], by simp [ht, hi], ?_⟩
      simp [reconcileTasks, collect]
    · left
      simp [ht, hi]
  · rw [if_neg ht]
    exact .inl ⟨ht, rfl⟩

theorem not_blocked (h : (planRecovery s inv).blockers = []) :
    Clear s inv ∧ (planRecovery s inv).actions =
      s.queue.flatMap (fun row => (reconcileQueue s row).actions) ++
        s.descriptors.flatMap (fun d => (reconcileDescriptor s inv d).actions) ++
        (reconcileIntegration s inv).2.actions := by
  rcases plan_cases s inv with ⟨hb, -⟩ | ⟨hc, -, -, ha⟩
  exacts [absurd h hb, ⟨hc, ha⟩]

/-- The actions that name one task. -/
theorem filter_actions (h : (planRecovery s inv).blockers = []) (id : String) :
    (planRecovery s inv).actions.filter (·.taskId = some id) =
      ((s.row id).map fun row => (reconcileQueue s row).actions).getD [] ++
        ((uniqueById Descriptor.Parsed.id s.descriptors id).map fun d =>
          (reconcileDescriptor s inv d).actions).getD [] := by
  obtain ⟨hc, ha⟩ := not_blocked h
  have hqueue := filter_flatMap_tagged id RecoveryAction.taskId
    (fun row => (reconcileQueue s row).actions) hc.rows fun row hrow a ha => by
      rw [reconcileQueue_eq (hc.queue row hrow)] at ha
      unfold orphanOf at ha
      split_ifs at ha
      · cases ha
      · obtain rfl := List.mem_singleton.1 ha
        rfl
      · cases ha
  have hdesc := filter_flatMap_tagged id RecoveryAction.taskId
    (fun d => (reconcileDescriptor s inv d).actions) hc.ids fun d hd =>
      (reconcileDescriptor_verdict (hc.descriptors d hd)).tagged
  have hlast : (reconcileIntegration s inv).2.actions.filter (·.taskId = some id) = [] := by
    refine List.filter_eq_nil_iff.2 fun a ha => ?_
    obtain ⟨batchId, point, rfl, -⟩ := reconcileIntegration_spec.1 a ha
    simp [RecoveryAction.taskId]
  rw [ha, List.filter_append, List.filter_append, hqueue, hdesc, hlast, List.append_nil]
  rfl

theorem filter_descriptor (h : (planRecovery s inv).blockers = []) (hd : d ∈ s.descriptors) :
    Verdict s inv d ((planRecovery s inv).actions.filter (·.taskId = some d.id)) := by
  obtain ⟨hc, -⟩ := not_blocked h
  have hself := uniqueById_self hc.ids hd
  have hnone : ((s.row d.id).map fun row => (reconcileQueue s row).actions).getD [] = [] := by
    cases hrow : s.row d.id with
    | none => rfl
    | some row =>
      obtain ⟨hmem, hid⟩ := uniqueById_eq_some hrow
      rw [Option.map_some, Option.getD_some, reconcileQueue_eq (hc.queue row hmem), hid, hself]
      rfl
  rw [filter_actions h, hnone, hself]
  exact reconcileDescriptor_verdict (hc.descriptors d hd)

theorem filter_orphan (h : (planRecovery s inv).blockers = []) {row : QueueEntry}
    (hrow : row ∈ s.queue) (hno : ∀ d ∈ s.descriptors, d.id ≠ row.id) :
    (planRecovery s inv).actions.filter (·.taskId = some row.id) = orphanOf row := by
  obtain ⟨hc, -⟩ := not_blocked h
  have hself : s.row row.id = some row := uniqueById_self hc.rows hrow
  have hnone := uniqueById_eq_none.2 hno
  rw [filter_actions h, hself, hnone, Option.map_some, Option.getD_some,
    reconcileQueue_eq (hc.queue row hrow), hnone]
  simp

theorem named_task (h : (planRecovery s inv).blockers = []) {a : RecoveryAction}
    (ha : a ∈ (planRecovery s inv).actions) :
    (∃ d ∈ s.descriptors, a.taskId = some d.id) ∨ (∃ row ∈ s.queue, a.taskId = some row.id) ∨
      ∃ batchId point, a = .continueIntegration batchId point ∧
        s.batch.bind (·.batchId) = some batchId := by
  obtain ⟨hc, heq⟩ := not_blocked h
  rw [heq, List.mem_append, List.mem_append, List.mem_flatMap, List.mem_flatMap] at ha
  rcases ha with (⟨row, hrow, ha⟩ | ⟨d, hd, ha⟩) | ha
  · refine .inr (.inl ⟨row, hrow, ?_⟩)
    rw [reconcileQueue_eq (hc.queue row hrow)] at ha
    unfold orphanOf at ha
    split_ifs at ha
    · cases ha
    · obtain rfl := List.mem_singleton.1 ha
      rfl
    · cases ha
  · exact .inl ⟨d, hd, (reconcileDescriptor_verdict (hc.descriptors d hd)).tagged a ha⟩
  · exact .inr (.inr (reconcileIntegration_spec.1 a ha))

/-- **A plan is blocked exactly when it has a blocker, and decides every task once otherwise.** -/
theorem plan_exact (s : Snapshot) (inv : RecoveryInventory) :
    ((planRecovery s inv).disposition = .blocked ↔ (planRecovery s inv).blockers ≠ []) ∧
    ((planRecovery s inv).blockers = [] →
      (∀ d ∈ s.descriptors,
        Verdict s inv d ((planRecovery s inv).actions.filter (·.taskId = some d.id))) ∧
      (∀ row ∈ s.queue, (∀ d ∈ s.descriptors, d.id ≠ row.id) →
        (planRecovery s inv).actions.filter (·.taskId = some row.id) = orphanOf row) ∧
      ∀ a ∈ (planRecovery s inv).actions,
        (∃ d ∈ s.descriptors, a.taskId = some d.id) ∨ (∃ row ∈ s.queue, a.taskId = some row.id) ∨
          ∃ batchId point, a = .continueIntegration batchId point ∧
            s.batch.bind (·.batchId) = some batchId) := by
  refine ⟨?_, fun h => ⟨fun d => filter_descriptor h, fun row => filter_orphan h,
    fun a => named_task h⟩⟩
  rcases plan_cases s inv with ⟨hb, hd⟩ | ⟨hc, hb, hd, -⟩
  · exact iff_of_true hd hb
  · rw [hd, hb, reconcileIntegration_spec.2, hc.integration]

end Orchestrail.Phase0
