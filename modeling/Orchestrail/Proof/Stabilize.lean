import Orchestrail.Proof.Phase0

/-!
# The repairs of Phase 0 settle

A plan without blockers is carried out as far as it is safe and made again from what is then there.
A removed descriptor may expose its row as an orphan; nothing else comes up anew, so the third plan
has no repair left, whatever is observed of the repository in between.
-/

namespace Orchestrail.Phase0

open Outcome
open Readiness (QueueEntry)
open Manifest (BatchTask BatchState)

/-- The actions the loop carries out. -/
def RecoveryAction.isSafe : RecoveryAction → Bool
  | .returnOrphanedQueue .. | .restoreQueueCapture .. | .removeUncapturedDescriptor .. => true
  | _ => false

variable {s t u : Snapshot} {inv : RecoveryInventory} {env : Environment} {id : String}
  {done : List RecoveryAction} {action : RecoveryAction}

/-! ## One repair -/

def Unclaimed (s : Snapshot) (id : String) : Prop := ∀ d ∈ s.descriptors, d.id ≠ id

theorem rowState_setStatus {state : TaskState} {attempt : Option Nat} (k : String) :
    (setStatus s id state attempt).rowState k =
      if id = k then (s.row id).map fun _ => state else s.rowState k := by
  unfold Snapshot.rowState Snapshot.row setStatus uniqueById
  simp only [List.find?_map]
  have hid : ((fun e : QueueEntry => e.id == k) ∘ fun entry : QueueEntry =>
      if entry.id = id then
        { entry with state := some state, attempt, quarantine := none, escalationReason := none }
      else entry) = fun e => e.id == k := by
    funext e
    simp only [Function.comp_apply]
    split_ifs <;> rfl
  rw [hid]
  by_cases hk : id = k
  · subst hk
    rw [if_pos rfl]
    cases hrow : s.queue.find? fun e => e.id == id with
    | none => rfl
    | some row =>
      have hrowid : row.id = id := by simpa using List.find?_some hrow
      simp [hrowid]
  · rw [if_neg hk]
    cases hrow : s.queue.find? fun e => e.id == k with
    | none => rfl
    | some row =>
      have hrowid : row.id = k := by simpa using List.find?_some hrow
      have hne : ¬row.id = id := fun h => hk (h.symm.trans hrowid)
      simp [hne]

theorem queueState_eq_ok {found : QueueEntry × TaskState} (h : queueState s id = .ok found) :
    s.row id = some found.1 ∧ s.rowState id = some found.2 := by
  unfold queueState at h
  split at h
  · cases h
  · rename_i row hrow
    split at h
    · cases h
    · rename_i state hstate
      obtain rfl := Except.ok.inj h
      exact ⟨hrow, by simp [Snapshot.rowState, Snapshot.row, hrow, hstate]⟩

theorem returnOrphanedQueue_eq_ok {attempt : Option Nat}
    (h : returnOrphanedQueue env s id attempt = .ok t) :
    Unclaimed s id ∧ (s.row id).isSome = true ∧ t = setStatus s id .notStarted attempt := by
  simp only [returnOrphanedQueue, bind_eq_ok, demand_eq_ok] at h
  obtain ⟨_, -, _, hno, found, hfound, _, -, h⟩ := h
  refine ⟨uniqueById_eq_none.1 (Option.isNone_iff_eq_none.1 hno), ?_, (Except.ok.inj h).symm⟩
  rw [(queueState_eq_ok hfound).1]
  rfl

theorem restoreQueueCapture_eq_ok {batchId branch worktree : List Char}
    (h : restoreQueueCapture env s id batchId branch worktree = .ok t) :
    ∃ state, isUncaptured (some state) = false ∧ (s.row id).isSome = true ∧ ¬Unclaimed s id ∧
      t = setStatus s id state none := by
  simp only [restoreQueueCapture, bind_eq_ok, demand_eq_ok] at h
  obtain ⟨_, -, _, -, _, -, _, -, h⟩ := h
  split at h
  · cases h
  · rename_i d hd
    split at h
    · cases h
    · rename_i state hstate
      simp only [bind_eq_ok, demand_eq_ok] at h
      obtain ⟨_, hlive, _, -, found, hfound, _, -, h⟩ := h
      obtain ⟨hmem, hid⟩ := uniqueById_eq_some hd
      refine ⟨state, ?_, by rw [(queueState_eq_ok hfound).1]; rfl, fun hno => hno d hmem hid,
        (Except.ok.inj h).symm⟩
      rcases hlive with rfl | rfl | rfl <;> rfl

theorem removeUncapturedDescriptor_eq_ok (h : removeUncapturedDescriptor s id = .ok t) :
    t = { s with descriptors := s.descriptors.filter (·.id ≠ id) } := by
  unfold removeUncapturedDescriptor at h
  simp only [bind_eq_ok] at h
  obtain ⟨_, -, h⟩ := h
  split at h
  · rename_i hnone
    obtain rfl := Except.ok.inj h
    have hall : s.descriptors.filter (·.id ≠ id) = s.descriptors :=
      List.filter_eq_self.2 fun d hd => by simpa using uniqueById_eq_none.1 hnone d hd
    rw [hall]
  · simp only [bind_eq_ok] at h
    obtain ⟨_, -, _, -, _, -, h⟩ := h
    exact (Except.ok.inj h).symm

/-- **What some repairs leave of a snapshot.** -/
structure Follows (s : Snapshot) (done : List RecoveryAction) (t : Snapshot) : Prop where
  batch : t.batch = s.batch
  kept : ∀ d ∈ t.descriptors, d ∈ s.descriptors
  stays : ∀ d ∈ s.descriptors,
    (∀ reason, RecoveryAction.removeUncapturedDescriptor d.id reason ∉ done) → d ∈ t.descriptors
  gone : ∀ id reason, RecoveryAction.removeUncapturedDescriptor id reason ∈ done → Unclaimed t id
  same : ∀ id, t.rowState id = s.rowState id ∨
    (∃ attempt, RecoveryAction.returnOrphanedQueue id attempt ∈ done) ∨
    ∃ batchId branch worktree,
      RecoveryAction.restoreQueueCapture id batchId branch worktree ∈ done
  returned : ∀ id attempt, RecoveryAction.returnOrphanedQueue id attempt ∈ done →
    t.rowState id = some .notStarted ∧ Unclaimed t id
  restored : ∀ id batchId branch worktree,
    RecoveryAction.restoreQueueCapture id batchId branch worktree ∈ done →
      isUncaptured (t.rowState id) = false ∨ Unclaimed t id

theorem follows_nil : Follows s [] s :=
  ⟨rfl, fun _ h => h, fun _ h _ => h, by simp, fun _ => .inl rfl, by simp, by simp⟩

/-- A row gets a new status, and the descriptors stay. -/
theorem Follows.status {state : TaskState} {attempt : Option Nat} (h : Follows s done t)
    (hrow : (t.row id).isSome = true)
    (ha : (∃ n, action = .returnOrphanedQueue id n) ∧ state = .notStarted ∧ Unclaimed t id ∨
      (∃ b br w, action = .restoreQueueCapture id b br w) ∧ isUncaptured (some state) = false ∧
        ¬Unclaimed t id) : Follows s (done ++ [action]) (setStatus t id state attempt) := by
  have hstate : ∀ k, (setStatus t id state attempt).rowState k =
      if id = k then some state else t.rowState k := by
    intro k
    obtain ⟨row, hrow⟩ := Option.isSome_iff_exists.1 hrow
    rw [rowState_setStatus, hrow]
    rfl
  have hdesc : (setStatus t id state attempt).descriptors = t.descriptors := rfl
  have hremove : ∀ k reason, RecoveryAction.removeUncapturedDescriptor k reason ≠ action := by
    rintro k reason rfl
    rcases ha with ⟨⟨n, hn⟩, -⟩ | ⟨⟨b, br, w, hn⟩, -⟩ <;> cases hn
  refine ⟨h.batch, h.kept, fun d hd hno => h.stays d hd fun r hr => hno r ?_, ?_, ?_, ?_, ?_⟩
  · exact List.mem_append_left _ hr
  · intro k reason hk
    rcases List.mem_append.1 hk with hk | hk
    exacts [h.gone k reason hk, absurd (List.mem_singleton.1 hk) (hremove k reason)]
  · intro k
    rw [hstate k]
    by_cases hk : id = k
    · subst hk
      right
      rcases ha with ⟨⟨n, rfl⟩, -⟩ | ⟨⟨b, br, w, rfl⟩, -⟩
      · exact .inl ⟨n, by simp⟩
      · exact .inr ⟨b, br, w, by simp⟩
    · rw [if_neg hk]
      rcases h.same k with hs | ⟨n, hn⟩ | ⟨b, br, w, hn⟩
      · exact .inl hs
      · exact .inr (.inl ⟨n, List.mem_append_left _ hn⟩)
      · exact .inr (.inr ⟨b, br, w, List.mem_append_left _ hn⟩)
  · intro k n hk
    rw [hstate k]
    rcases List.mem_append.1 hk with hk | hk
    · obtain ⟨hns, hno⟩ := h.returned k n hk
      refine ⟨?_, hno⟩
      by_cases hid : id = k
      · subst hid
        rcases ha with ⟨-, rfl, -⟩ | ⟨-, -, hclaimed⟩
        exacts [if_pos rfl, absurd hno hclaimed]
      · rwa [if_neg hid]
    · obtain rfl := List.mem_singleton.1 hk
      rcases ha with ⟨⟨m, hm⟩, rfl, hno⟩ | ⟨⟨b, br, w, hm⟩, -⟩
      · obtain ⟨rfl, -⟩ := RecoveryAction.returnOrphanedQueue.inj hm
        exact ⟨if_pos rfl, hno⟩
      · cases hm
  · intro k b br w hk
    rw [hstate k]
    rcases List.mem_append.1 hk with hk | hk
    · by_cases hid : id = k
      · subst hid
        rcases ha with ⟨-, -, hno⟩ | ⟨-, hun, -⟩
        exacts [.inr hno, .inl (by rwa [if_pos rfl])]
      · rw [if_neg hid]
        exact h.restored k b br w hk
    · obtain rfl := List.mem_singleton.1 hk
      rcases ha with ⟨⟨m, hm⟩, -⟩ | ⟨⟨b', br', w', hm⟩, hun, -⟩
      · cases hm
      · obtain ⟨rfl, -⟩ := RecoveryAction.restoreQueueCapture.inj hm
        exact .inl (by rwa [if_pos rfl])

/-- A descriptor goes, and the rows stay. -/
theorem Follows.remove (h : Follows s done t) (reason : String) :
    Follows s (done ++ [.removeUncapturedDescriptor id reason])
      { t with descriptors := t.descriptors.filter (·.id ≠ id) } := by
  have hunclaimed : ∀ k, Unclaimed t k →
      Unclaimed { t with descriptors := t.descriptors.filter (·.id ≠ id) } k :=
    fun k hk d hd => hk d (List.mem_filter.1 hd).1
  refine ⟨h.batch, fun d hd => h.kept d (List.mem_filter.1 hd).1, ?_, ?_, ?_, ?_, ?_⟩
  · intro d hd hno
    refine List.mem_filter.2 ⟨h.stays d hd fun r hr => hno r (List.mem_append_left _ hr), ?_⟩
    by_contra hne
    have hid : d.id = id := by simpa using hne
    exact hno reason (by simp [hid])
  · intro k r hk
    rcases List.mem_append.1 hk with hk | hk
    · exact hunclaimed k (h.gone k r hk)
    · obtain ⟨rfl, -⟩ := RecoveryAction.removeUncapturedDescriptor.inj (List.mem_singleton.1 hk)
      exact fun d hd => by simpa using (List.mem_filter.1 hd).2
  · intro k
    rcases h.same k with hs | ⟨n, hn⟩ | ⟨b, br, w, hn⟩
    · exact .inl hs
    · exact .inr (.inl ⟨n, List.mem_append_left _ hn⟩)
    · exact .inr (.inr ⟨b, br, w, List.mem_append_left _ hn⟩)
  · intro k n hk
    rcases List.mem_append.1 hk with hk | hk
    · exact ⟨(h.returned k n hk).1, hunclaimed k (h.returned k n hk).2⟩
    · cases List.mem_singleton.1 hk
  · intro k b br w hk
    rcases List.mem_append.1 hk with hk | hk
    · exact (h.restored k b br w hk).imp_right (hunclaimed k)
    · cases List.mem_singleton.1 hk

/-- An action that is left alone. -/
theorem Follows.skip (h : Follows s done t) (ha : action.isSafe = false) :
    Follows s (done ++ [action]) t := by
  have hmem : ∀ a : RecoveryAction, a.isSafe = true → a ∈ done ++ [action] → a ∈ done := by
    intro a hsafe hmem
    rcases List.mem_append.1 hmem with hmem | hmem
    · exact hmem
    · rw [List.mem_singleton.1 hmem, ha] at hsafe
      cases hsafe
  refine ⟨h.batch, h.kept, fun d hd hno => h.stays d hd fun r hr => hno r ?_, ?_, fun k => ?_,
    ?_, ?_⟩
  · exact List.mem_append_left _ hr
  · exact fun k r hk => h.gone k r (hmem _ rfl hk)
  · rcases h.same k with hs | ⟨n, hn⟩ | ⟨b, br, w, hn⟩
    · exact .inl hs
    · exact .inr (.inl ⟨n, List.mem_append_left _ hn⟩)
    · exact .inr (.inr ⟨b, br, w, List.mem_append_left _ hn⟩)
  · exact fun k n hk => h.returned k n (hmem _ rfl hk)
  · exact fun k b br w hk => h.restored k b br w (hmem _ rfl hk)

theorem Follows.repair {outcome : Control Snapshot} (h : Follows s done t)
    (hrepair : repair env t action = some outcome) (hok : outcome = .ok u) :
    Follows s (done ++ [action]) u := by
  subst hok
  cases action with
  | returnOrphanedQueue id attempt =>
    obtain ⟨hno, hrow, rfl⟩ := returnOrphanedQueue_eq_ok (Option.some.inj hrepair)
    exact h.status hrow (.inl ⟨⟨attempt, rfl⟩, rfl, hno⟩)
  | restoreQueueCapture id batchId branch worktree =>
    obtain ⟨state, hun, hrow, hclaimed, rfl⟩ :=
      restoreQueueCapture_eq_ok (Option.some.inj hrepair)
    exact h.status hrow (.inr ⟨⟨batchId, branch, worktree, rfl⟩, hun, hclaimed⟩)
  | removeUncapturedDescriptor id reason =>
    rw [removeUncapturedDescriptor_eq_ok (Option.some.inj hrepair)]
    exact h.remove reason
  | ensureTaskWorkspace | resumeTask | requeueConflict | accountPublished | accountDone
  | continueIntegration => cases hrepair

theorem repair_eq_none : repair env t action = none ↔ action.isSafe = false := by
  cases action <;> simp [repair, RecoveryAction.isSafe]

/-! ## One round -/

/-- An error a port answered with: its own refusal, or one of the control plane. -/
inductive Environment.Refusal (env : Environment) : PortError → Prop
  | repair {round action error} : env.refuses round action = some error → Refusal env error
  | control {error} : Refusal env (.control error)
  | observation {round error} : env.observes round = .error error → Refusal env error

theorem executeActions_spec (env : Environment) (round : Nat) {actions : List RecoveryAction}
    (h : Follows s done t) :
    (∃ error, executeActions env round actions t = .error error ∧ env.Refusal error) ∨
    ∃ u n, executeActions env round actions t = .ok (u, n) ∧ Follows s (done ++ actions) u ∧
      (n = 0 ↔ ∀ a ∈ actions, a.isSafe = false) ∧ (n = 0 → u = t) := by
  induction actions generalizing t done with
  | nil => exact .inr ⟨t, 0, rfl, by simpa using h, by simp, fun _ => rfl⟩
  | cons a actions ih =>
    have happend : done ++ a :: actions = done ++ [a] ++ actions := by simp
    rw [happend]
    unfold executeActions
    cases hrepair : repair env t a with
    | none =>
      have hsafe := repair_eq_none.1 hrepair
      rcases ih (h.skip hsafe) with hfail | ⟨u, n, hrun, hf, hn, hsame⟩
      · exact .inl hfail
      · exact .inr ⟨u, n, hrun, hf, by simp [hn, hsafe], hsame⟩
    | some outcome =>
      have hsafe : a.isSafe = true := by
        by_contra hno
        rw [repair_eq_none.2 (by simpa using hno)] at hrepair
        cases hrepair
      dsimp only
      cases hadmit : env.refuses round a with
      | some refusal =>
        exact .inl ⟨refusal, by simp [admitted, hadmit, bind, Except.bind], .repair hadmit⟩
      | none =>
        cases outcome with
        | error error =>
          refine .inl ⟨.control error, ?_, .control⟩
          simp [admitted, hadmit, bind, Except.bind, Except.mapError]
        | ok u =>
          rcases ih (h.repair hrepair rfl) with ⟨error, hrun, hwhy⟩ | ⟨v, n, hrun, hf, -⟩
          · exact .inl ⟨error,
              by simp [admitted, hadmit, bind, Except.bind, Except.mapError, hrun], hwhy⟩
          · refine .inr ⟨v, n + 1, ?_, hf, by simp [hsafe], by simp⟩
            simp [admitted, hadmit, bind, Except.bind, Except.mapError, hrun, pure, Except.pure]

/-! ## The next plan -/

section Plans

variable {inv' : RecoveryInventory}

theorem action_cases (h : (planRecovery s inv).blockers = [])
    (ha : action ∈ (planRecovery s inv).actions) (hid : action.taskId = some id) :
    (∃ d ∈ s.descriptors, d.id = id ∧ ∃ l, Verdict s inv d l ∧ action ∈ l) ∨
      ∃ row ∈ s.queue, row.id = id ∧ Unclaimed s id ∧ action ∈ orphanOf row := by
  have hmem : action ∈ (planRecovery s inv).actions.filter (·.taskId = some id) :=
    List.mem_filter.2 ⟨ha, by simp [hid]⟩
  by_cases hclaimed : ∃ d ∈ s.descriptors, d.id = id
  · obtain ⟨d, hd, rfl⟩ := hclaimed
    exact .inl ⟨d, hd, rfl, _, filter_descriptor h hd, hmem⟩
  · have hno : Unclaimed s id := fun d hd he => hclaimed ⟨d, hd, he⟩
    rcases named_task h ha with ⟨d, hd, he⟩ | ⟨row, hrow, he⟩ | ⟨batchId, point, rfl, -⟩
    · exact absurd (Option.some.inj (he.symm.trans hid)) (hno d hd)
    · obtain rfl : row.id = id := Option.some.inj (he.symm.trans hid)
      refine .inr ⟨row, hrow, rfl, hno, ?_⟩
      rwa [filter_orphan h hrow hno] at hmem
    · cases hid

/-- A live descriptor or one that waits for its merge. -/
def Claims (d : Decoded) : Prop := isLive d = true ∨ d.state = some .ready

theorem mem_captureOf {d : Decoded} {batchId branch worktree : List Char}
    (ha : action ∈ captureOf s d batchId branch worktree) :
    isUncaptured (s.rowState d.id) = true ∧
      action = .restoreQueueCapture d.id batchId branch worktree := by
  unfold captureOf at ha
  split_ifs at ha with hun
  · exact ⟨hun, List.mem_singleton.1 ha⟩
  · cases ha

theorem captureOf_self {d : Decoded} {batchId branch worktree : List Char}
    (hun : isUncaptured (s.rowState d.id) = true) :
    .restoreQueueCapture d.id batchId branch worktree ∈ captureOf s d batchId branch worktree := by
  rw [captureOf, if_pos hun]
  exact List.mem_singleton_self _

theorem mem_workspaceOf {d : Decoded} {observation : TaskRepositoryObservation}
    (ha : action ∈ workspaceOf d observation) : action.isSafe = false := by
  unfold workspaceOf at ha
  split_ifs at ha
  · cases ha
  · rw [List.mem_singleton.1 ha]
    rfl

/-- The safe actions of a verdict. -/
theorem Verdict.safe {d : Decoded} {l : List RecoveryAction} (h : Verdict s inv d l)
    (ha : action ∈ l) (hsafe : action.isSafe = true) :
    (∃ reason, action = .removeUncapturedDescriptor d.id reason) ∧ Uncaptured s d ∨
      (∃ batchId branch worktree, action = .restoreQueueCapture d.id batchId branch worktree) ∧
        Claims d ∧ isUncaptured (s.rowState d.id) = true := by
  cases h with
  | uncaptured hun =>
    exact .inl ⟨⟨_, List.mem_singleton.1 ha⟩, hun⟩
  | resumed hlive =>
    simp only [List.mem_append, List.mem_singleton] at ha
    rcases ha with (ha | ha) | rfl
    · obtain ⟨hun, rfl⟩ := mem_captureOf ha
      exact .inr ⟨⟨_, _, _, rfl⟩, .inl hlive, hun⟩
    · rw [mem_workspaceOf ha] at hsafe
      cases hsafe
    · cases hsafe
  | ready hready =>
    obtain ⟨hun, rfl⟩ := mem_captureOf ha
    exact .inr ⟨⟨_, _, _, rfl⟩, .inr hready, hun⟩
  | requeued | published | done => rw [List.mem_singleton.1 ha] at hsafe; cases hsafe
  | returned | escalated | merged => cases ha

theorem InBatch.not_uncaptured {d : Decoded} {batch : BatchState} {batchId : List Char}
    {task : BatchTask} (h : InBatch s d batch batchId task) (hstate : d.state ≠ some .notStarted) :
    ¬Uncaptured s d := by
  rintro (hns | ⟨-, ⟨hnone, -⟩ | ⟨batch', batchId', hbatch, -, habsent⟩⟩)
  · exact hstate hns
  · rw [h.manifest] at hnone
    cases hnone
  · obtain rfl := Option.some.inj (h.manifest.symm.trans hbatch)
    obtain ⟨hmem, hid⟩ := uniqueById_eq_some h.task
    exact habsent task hmem hid

/-- A plan removes what nobody captured, and restores the rows of the tasks it keeps. -/
theorem Verdict.repairs {d : Decoded} {l : List RecoveryAction} (h : Verdict s inv d l) :
    (Uncaptured s d → ∃ reason, RecoveryAction.removeUncapturedDescriptor d.id reason ∈ l) ∧
      (Claims d → ¬Uncaptured s d → isUncaptured (s.rowState d.id) = true →
        ∃ batchId branch worktree,
          RecoveryAction.restoreQueueCapture d.id batchId branch worktree ∈ l) := by
  have hother : d.state ≠ some .notStarted → isLive d = false → d.state ≠ some .ready →
      ¬Uncaptured s d ∧ ¬Claims d := fun hns hlive hready =>
    ⟨fun hun => hun.elim hns fun h => by simp [hlive] at h,
      fun hc => hc.elim (fun h => by simp [hlive] at h) hready⟩
  cases h with
  | uncaptured hun => exact ⟨fun _ => ⟨_, List.mem_singleton_self _⟩, fun _ hno => absurd hun hno⟩
  | @resumed _ batchId _ _ worktree _ _ hlive hin =>
    have hno := hin.not_uncaptured fun hns => by simp [isLive, hns] at hlive
    refine ⟨fun hun => absurd hun hno, fun _ _ hun => ⟨batchId, taskBranch d.id, worktree, ?_⟩⟩
    exact List.mem_append_left _ (List.mem_append_left _ (captureOf_self hun))
  | ready hready hin =>
    have hno := hin.not_uncaptured (by simp [hready])
    exact ⟨fun hun => absurd hun hno, fun _ _ hun => ⟨_, _, _, captureOf_self hun⟩⟩
  | requeued hs | returned hs | escalated hs | merged hs | published hs | done hs =>
    have hboth := hother (by simp [hs]) (by simp [isLive, hs]) (by simp [hs])
    exact ⟨fun hun => absurd hun hboth.1, fun hc => absurd hc hboth.2⟩

/-- The rows a plan returns to the queue. -/
theorem returns_iff (h : (planRecovery s inv).blockers = []) :
    (∃ attempt, RecoveryAction.returnOrphanedQueue id attempt ∈ (planRecovery s inv).actions) ↔
      Unclaimed s id ∧ (s.rowState id).any isCaptured = true := by
  obtain ⟨hc, -⟩ := not_blocked h
  constructor
  · rintro ⟨attempt, ha⟩
    rcases action_cases h ha rfl with ⟨d, -, -, l, hl, hmem⟩ | ⟨row, hrow, rfl, hno, hmem⟩
    · rcases hl.safe hmem rfl with ⟨⟨_, he⟩, -⟩ | ⟨⟨_, _, _, he⟩, -⟩ <;> cases he
    · refine ⟨hno, ?_⟩
      unfold orphanOf at hmem
      split_ifs at hmem with hcap
      · have hself : s.row row.id = some row := uniqueById_self hc.rows hrow
        rwa [Snapshot.rowState, hself]
      · cases hmem
  · rintro ⟨hno, hcap⟩
    cases hrow : s.row id with
    | none => simp [Snapshot.rowState, hrow] at hcap
    | some row =>
      obtain ⟨hmem, rfl⟩ := uniqueById_eq_some hrow
      have hstate : row.state.any isCaptured = true := by simpa [Snapshot.rowState, hrow] using hcap
      refine ⟨row.attempt, (List.mem_filter (p := (·.taskId = some row.id))).1 ?_ |>.1⟩
      rw [filter_orphan h hmem hno, orphanOf, if_pos hstate]
      exact List.mem_singleton_self _

/-- After a plan was carried out the next one only returns rows. -/
theorem second_plan (h : (planRecovery s inv).blockers = [])
    (hf : Follows s (planRecovery s inv).actions t) (h' : (planRecovery t inv').blockers = [])
    (ha : action ∈ (planRecovery t inv').actions) (hsafe : action.isSafe = true) :
    ∃ id attempt, action = .returnOrphanedQueue id attempt := by
  cases hid : action.taskId with
  | none => cases action <;> cases hid; cases hsafe
  | some id =>
    rcases action_cases h' ha hid with ⟨d, hd, rfl, l, hl, hmem⟩ | ⟨row, -, -, -, hmem⟩
    · exfalso
      have hdo := hf.kept d hd
      obtain ⟨hremoves, hrestores⟩ := (filter_descriptor h hdo).repairs
      -- the first plan would have removed it
      have hkept : ¬Uncaptured s d := fun hun => by
        obtain ⟨reason, hr⟩ := hremoves hun
        exact hf.gone d.id reason (List.mem_filter.1 hr).1 d hd rfl
      rcases hl.safe hmem hsafe with ⟨-, hun⟩ | ⟨-, hclaims, hun⟩
      · refine hkept ?_
        rcases hun with hns | ⟨hlive, ⟨hnone, -⟩ | ⟨batch, batchId, hbatch, hb, habsent⟩⟩
        · exact .inl hns
        · rw [hf.batch] at hnone
          -- without a manifest the first plan had no other verdict on a live descriptor
          have hv := filter_descriptor h hdo
          generalize (planRecovery s inv).actions.filter (·.taskId = some d.id) = l' at hv
          cases hv with
          | uncaptured hun => exact hun
          | resumed _ hin => rw [hin.manifest] at hnone; cases hnone
          | ready hs | requeued hs | returned hs | escalated hs | merged hs | published hs
          | done hs => simp [isLive, hs] at hlive
        · exact .inr ⟨hlive, .inr ⟨batch, batchId, hf.batch ▸ hbatch, hb, habsent⟩⟩
      · rcases hf.same d.id with hsame | ⟨n, hn⟩ | ⟨b, br, w, hn⟩
        · obtain ⟨b, br, w, hr⟩ := hrestores hclaims hkept (hsame ▸ hun)
          rcases hf.restored d.id b br w (List.mem_filter.1 hr).1 with hno | hno
          · rw [hun] at hno
            cases hno
          · exact hno d hd rfl
        · exact (hf.returned d.id n hn).2 d hd rfl
        · rcases hf.restored d.id b br w hn with hno | hno
          · rw [hun] at hno
            cases hno
          · exact hno d hd rfl
    · unfold orphanOf at hmem
      split_ifs at hmem
      · exact ⟨_, _, List.mem_singleton.1 hmem⟩
      · cases hmem

/-- What a plan returned is not returned again. -/
theorem not_returned_again (hf : Follows s (planRecovery s inv).actions t)
    (h' : (planRecovery t inv').blockers = []) {n m : Option Nat}
    (hn : RecoveryAction.returnOrphanedQueue id n ∈ (planRecovery s inv).actions) :
    RecoveryAction.returnOrphanedQueue id m ∉ (planRecovery t inv').actions := by
  intro hm
  have hcap := ((returns_iff h').1 ⟨m, hm⟩).2
  rw [(hf.returned id n hn).1] at hcap
  cases hcap

/-- A plan that only returns rows leaves nothing for the next. -/
theorem third_plan (h : (planRecovery s inv).blockers = [])
    (hf : Follows s (planRecovery s inv).actions t) (h' : (planRecovery t inv').blockers = [])
    (honly : ∀ a ∈ (planRecovery s inv).actions, a.isSafe = true →
      ∃ id attempt, a = .returnOrphanedQueue id attempt) :
    ∀ a ∈ (planRecovery t inv').actions, a.isSafe = false := by
  intro a ha
  by_contra hsafe
  obtain ⟨id, m, rfl⟩ := second_plan h hf h' ha (by simpa using hsafe)
  obtain ⟨hno, hcap⟩ := (returns_iff h').1 ⟨m, ha⟩
  have hkeeps : Unclaimed s id := by
    refine fun d hd hid => hno d (hf.stays d hd fun reason hr => ?_) hid
    obtain ⟨_, _, he⟩ := honly _ hr rfl
    cases he
  rcases hf.same id with hsame | ⟨n, hn⟩ | ⟨b, br, w, hn⟩
  · obtain ⟨n, hn⟩ := (returns_iff h).2 ⟨hkeeps, hsame ▸ hcap⟩
    exact not_returned_again hf h' hn ha
  · exact not_returned_again hf h' hn ha
  · obtain ⟨_, _, he⟩ := honly _ hn rfl
    cases he

/-- A plan that was carried out is not made again. -/
theorem plan_changes (h : (planRecovery s inv).blockers = [])
    (hf : Follows s (planRecovery s inv).actions t) (ha : action ∈ (planRecovery s inv).actions)
    (hsafe : action.isSafe = true) : planRecovery t inv' ≠ planRecovery s inv := by
  intro he
  have h' : (planRecovery t inv').blockers = [] := he ▸ h
  have ha' : action ∈ (planRecovery t inv').actions := he ▸ ha
  obtain ⟨id, n, rfl⟩ := second_plan h hf h' ha' hsafe
  exact not_returned_again hf h' ha ha'

end Plans

/-! ## The loop -/

theorem isBlocked_eq_false {plan : RecoveryPlan} : plan.isBlocked = false ↔ plan.blockers = [] := by
  simp [RecoveryPlan.isBlocked]

theorem stabilize_blocked (n total : Nat) (h : (planRecovery s inv).isBlocked = true) :
    stabilize env (n + 1) (planRecovery s inv) total s = .ok (planRecovery s inv, total, s) := by
  unfold stabilize
  rw [if_pos h]

/-- One round: a port refuses, there is nothing to repair, or the loop goes on with a new plan. -/
theorem stabilize_round (env : Environment) (n total : Nat)
    (h : (planRecovery s inv).isBlocked = false) :
    (∃ error, stabilize env (n + 1) (planRecovery s inv) total s = .error error ∧
      env.Refusal error) ∨
    (stabilize env (n + 1) (planRecovery s inv) total s = .ok (planRecovery s inv, total, s) ∧
      ∀ a ∈ (planRecovery s inv).actions, a.isSafe = false) ∨
    ∃ t inv' k, Follows s (planRecovery s inv).actions t ∧
      (∃ a ∈ (planRecovery s inv).actions, a.isSafe = true) ∧
      stabilize env (n + 1) (planRecovery s inv) total s =
        stabilize env n (planRecovery t inv') (total + k) t := by
  have hclear := isBlocked_eq_false.1 h
  rw [stabilize, if_neg (by simp [h]), executeSafeControlRecoveryActions, if_neg (by simp [h])]
  rcases executeActions_spec env n follows_nil with
    ⟨error, hrun, hwhy⟩ | ⟨t, k, hrun, hf, hk, hsame⟩
  · exact .inl ⟨error, by rw [hrun]; rfl, hwhy⟩
  · rw [hrun]
    simp only [List.nil_append] at hf
    by_cases hzero : k = 0
    · refine .inr (.inl ⟨?_, hk.1 hzero⟩)
      obtain rfl := hsame hzero
      simp [bind, Except.bind, hzero, pure, Except.pure]
    · have hsafe : ∃ a ∈ (planRecovery s inv).actions, a.isSafe = true := by
        by_contra hno
        exact hzero (hk.2 fun a ha => by simpa using fun hs => hno ⟨a, ha, hs⟩)
      cases hobs : env.observes n with
      | error error =>
        refine .inl ⟨error, ?_, .observation hobs⟩
        simp [bind, Except.bind, hzero, recoveryPlan, hobs, Except.map]
      | ok inv' =>
        refine .inr (.inr ⟨t, inv', k, hf, hsafe, ?_⟩)
        obtain ⟨a, ha, hs⟩ := hsafe
        have hchange : planRecovery t inv' ≠ planRecovery s inv := plan_changes hclear hf ha hs
        simp [bind, Except.bind, hzero, recoveryPlan, hobs, Except.map, hchange]

/-- What the loop ends in: a plan of what is there, blocked or with nothing left to repair. -/
structure Settled (s : Snapshot) (plan : RecoveryPlan) (t : Snapshot) : Prop where
  fresh : ∃ inv, plan = planRecovery t inv
  done : plan.isBlocked = true ∨ ∀ a ∈ plan.actions, a.isSafe = false
  batch : t.batch = s.batch
  kept : ∀ d ∈ t.descriptors, d ∈ s.descriptors

theorem settled_here (h : (planRecovery s inv).isBlocked = true ∨
    ∀ a ∈ (planRecovery s inv).actions, a.isSafe = false) : Settled s (planRecovery s inv) s :=
  ⟨⟨inv, rfl⟩, h, rfl, fun _ hd => hd⟩

theorem Settled.after {plan : RecoveryPlan} (hf : Follows s done t) (h : Settled t plan u) :
    Settled s plan u :=
  ⟨h.fresh, h.done, h.batch.trans hf.batch, fun d hd => hf.kept d (h.kept d hd)⟩

/-- How the loop ends. -/
def Ends (env : Environment) (s : Snapshot) :
    Except PortError (RecoveryPlan × Nat × Snapshot) → Prop
  | .error error => env.Refusal error
  | .ok x => Settled s x.1 x.2.2

theorem Ends.after {x : Except PortError (RecoveryPlan × Nat × Snapshot)} (hf : Follows s done t)
    (h : Ends env t x) : Ends env s x := by
  cases x with
  | error error => exact h
  | ok x => exact Settled.after hf h

/-- A round ends the loop, or hands it on with a plan of what it left. -/
theorem ends_round (n total : Nat)
    (hnext : ∀ t inv' k, (planRecovery s inv).blockers = [] →
      Follows s (planRecovery s inv).actions t →
      (∃ a ∈ (planRecovery s inv).actions, a.isSafe = true) →
      Ends env t (stabilize env n (planRecovery t inv') (total + k) t)) :
    Ends env s (stabilize env (n + 1) (planRecovery s inv) total s) := by
  cases h : (planRecovery s inv).isBlocked with
  | true =>
    rw [stabilize_blocked n total h]
    exact settled_here (.inl h)
  | false =>
    rcases stabilize_round env n total h with
      ⟨error, hrun, hwhy⟩ | ⟨hrun, hdone⟩ | ⟨t, inv', k, hf, hsafe, hrun⟩
    · rw [hrun]
      exact hwhy
    · rw [hrun]
      exact settled_here (.inr hdone)
    · rw [hrun]
      exact (hnext t inv' k (isBlocked_eq_false.1 h) hf hsafe).after hf

/-- Three plans are enough. -/
theorem stabilize_ends (n total : Nat) :
    Ends env s (stabilize env (n + 3) (planRecovery s inv) total s) := by
  refine ends_round (n + 2) total fun t inv1 k h hf _ => ?_
  refine ends_round (n + 1) (total + k) fun u inv2 k2 h1 hf1 _ => ?_
  refine ends_round n (total + k + k2) fun v inv3 k3 h2 _ hsafe => ?_
  obtain ⟨a, ha, hs⟩ := hsafe
  rw [third_plan h1 hf1 h2 (fun b hb => second_plan h hf h1 hb) a ha] at hs
  cases hs

/-- **The repairs of Phase 0 settle within three plans, unless a port refuses.** Neither the bound
on the rounds nor the check for a plan that does not change is ever met. -/
theorem stabilize_settled (env : Environment) (s : Snapshot) (inv : RecoveryInventory) :
    Ends env s (stabilizeSafeControlRecovery env (planRecovery s inv) s) ∧
      ∀ n total, Ends env s (stabilize env (n + 3) (planRecovery s inv) total s) :=
  ⟨stabilize_ends (maxSafeControlRecoveryRounds - 3) 0, fun n total => stabilize_ends n total⟩

end Orchestrail.Phase0
