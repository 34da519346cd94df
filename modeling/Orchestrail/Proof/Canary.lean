import Orchestrail.Spec.Canary

/-!
# One canary at a time

* `next_sound`: every smooth step keeps it, by what each section does to the session (`Section`).
-/

namespace Orchestrail.Canary

open Steps

/-! ## Sections -/

namespace CodexPreflightSession

/-- Codex is closed to coders. -/
def Closed (s : CodexPreflightSession) : Prop := s.host = .disabled ∨ s.worktree = .disabled

/-- What a section that selects no canary may do to the session. -/
structure Section (s t : CodexPreflightSession) : Prop where
  host : s.host = .disabled → t.host = .disabled
  worktree : s.worktree = .disabled → t.worktree = .disabled
  /-- a canary that stays selected stays in an open session, and is not judged -/
  kept : ∀ c, t.canaryTask = some c → s.canaryTask = some c ∧ t.canary = s.canary ∧
    (s.host ≠ .disabled → t.host ≠ .disabled) ∧ (s.worktree ≠ .disabled → t.worktree ≠ .disabled)
  /-- what closes the worktrees closes the canary -/
  joined : (s.worktree = .disabled → s.canary = .disabled) →
    (s.canaryTask ≠ none → s.worktree ≠ .disabled) → t.worktree = .disabled → t.canary = .disabled

theorem Section.refl (s : CodexPreflightSession) : Section s s :=
  ⟨id, id, fun _ h => ⟨h, rfl, id, id⟩, fun h _ => h⟩

theorem Section.trans {s t u : CodexPreflightSession} (h : Section s t) (h' : Section t u) :
    Section s u where
  host := fun hs => h'.host (h.host hs)
  worktree := fun hs => h'.worktree (h.worktree hs)
  kept := by
    intro c hc
    obtain ⟨htask, hcanary, hhost, hworktree⟩ := h'.kept c hc
    obtain ⟨htask', hcanary', hhost', hworktree'⟩ := h.kept c htask
    exact ⟨htask', hcanary.trans hcanary', fun hs => hhost (hhost' hs),
      fun hs => hworktree (hworktree' hs)⟩
  joined := by
    intro hs htask
    refine h'.joined (h.joined hs htask) fun ht => ?_
    obtain ⟨c, hc⟩ := Option.ne_none_iff_exists'.1 ht
    obtain ⟨hsc, -, -, hworktree⟩ := h.kept c hc
    exact hworktree (htask (by simp [hsc]))

theorem disable_section (s : CodexPreflightSession) (scope : CodexSandboxDowngrade) :
    Section s (s.disable scope) := by
  cases scope with
  | host => exact ⟨fun _ => rfl, id, fun _ hc => (nomatch hc), fun h _ => h⟩
  | worktree => exact ⟨id, fun _ => rfl, fun _ hc => (nomatch hc), fun _ _ _ => rfl⟩

theorem probeHost_section (s : CodexPreflightSession) (decision : CodexProbeDecision) :
    Section s (s.probeHost decision) := by
  unfold probeHost
  split
  · rename_i hpending
    cases decision with
    | unchanged =>
      exact ⟨fun h => by simp [hpending] at h, id,
        fun c hc => ⟨hc, rfl, fun _ => by simp, id⟩, fun h _ => h⟩
    | downgradeHost => exact ⟨fun _ => rfl, id, fun _ hc => (nomatch hc), fun h _ => h⟩
    | downgradeWorktree =>
      exact ⟨fun h => by simp [hpending] at h, fun _ => rfl, fun _ hc => (nomatch hc),
        fun _ _ _ => rfl⟩
  · exact .refl s

theorem probeWorktree_section (s : CodexPreflightSession) (decision : CodexProbeDecision) :
    Section s (s.probeWorktree decision) := by
  unfold probeWorktree
  split
  · rename_i hpending
    cases decision with
    | unchanged =>
      exact ⟨id, fun h => by simp [hpending] at h,
        fun c hc => ⟨hc, rfl, id, fun _ => by simp⟩, fun _ _ h => by simp at h⟩
    | downgradeHost => exact ⟨fun _ => rfl, id, fun _ hc => (nomatch hc), fun h _ => h⟩
    | downgradeWorktree => exact ⟨id, fun _ => rfl, fun _ hc => (nomatch hc), fun _ _ _ => rfl⟩
  · exact .refl s

theorem codexPreflight_section (s : CodexPreflightSession) (host : CodexProbeDecision)
    (worktree : Option CodexProbeDecision) : Section s (s.codexPreflight host worktree).1 := by
  have hhost := probeHost_section s host
  unfold codexPreflight
  simp only
  split
  · exact hhost
  · cases worktree with
    | none => exact hhost
    | some worktree =>
      -- both probes, then an answer that leaves the session alone
      have hboth := hhost.trans (probeWorktree_section _ worktree)
      simp only
      split
      · exact hboth
      · split <;> exact hboth

/-- A preflight lets a coder pass exactly in an open session. -/
theorem codexPreflight_passes {s : CodexPreflightSession} {host worktree : CodexProbeDecision} :
    (s.codexPreflight host (some worktree)).2.isSome = false ↔
      ¬ (s.codexPreflight host (some worktree)).1.Closed := by
  unfold codexPreflight
  simp only
  split
  · rename_i hhost
    simp [Closed, hhost]
  · split
    · rename_i hhost
      simp [Closed, hhost]
    · split <;> rename_i hhost hworktree <;> simp [Closed, hhost, hworktree]

theorem finish_section {s : CodexPreflightSession} (taskId : String) {result : CodexCanaryState}
    (hresult : result ≠ .disabled) : Section s (s.finishCodexCanary taskId result) := by
  unfold finishCodexCanary
  split
  · exact .refl s
  · rename_i htask
    simp only [ne_eq, not_not] at htask
    refine ⟨id, fun h => by simpa [hresult] using h, fun _ hc => (nomatch hc), ?_⟩
    intro _ hopen hworktree
    have hkept : s.worktree = .disabled := by simpa [hresult] using hworktree
    exact absurd hkept (hopen (by simp [htask]))

theorem settle_section (s : CodexPreflightSession) (taskId : String) (canary : Bool)
    (ending : Ending) : Section s (settleSession s taskId canary ending) := by
  cases ending with
  | success =>
    cases canary with
    | false => exact .refl s
    | true => exact @finish_section s taskId .enabled (by decide)
  | failed =>
    cases canary with
    | false => exact .refl s
    | true => exact @finish_section s taskId .pending (by decide)
  | limited scope => exact disable_section s scope

/-- The preparation that answers for the canary releases it. -/
theorem settle_releases {s : CodexPreflightSession} {taskId : String} {ending : Ending}
    (h : s.canaryTask = some taskId) :
    (settleSession s taskId true ending).canaryTask = none := by
  cases ending with
  | success => simp [settleSession, finishCodexCanary, h]
  | failed => simp [settleSession, finishCodexCanary, h]
  | limited scope => cases scope <;> rfl

/-- The route of a session, without the choice of a canary in it. -/
theorem codexCanaryRoute_cases (s : CodexPreflightSession) (taskId : String) (retained : Bool) :
    (∃ scope, s.codexCanaryRoute taskId retained = (s, .downgraded scope)) ∨
    (¬ s.Closed ∧ s.canary = .enabled ∧ s.codexCanaryRoute taskId retained = (s, .proceed)) ∨
    (¬ s.Closed ∧ s.canary = .pending ∧ ∃ c, s.canaryTask = some c ∧
      s.codexCanaryRoute taskId retained = (s, if c = taskId then .canary else .stayClaude)) ∨
    (¬ s.Closed ∧ s.canary = .pending ∧ s.canaryTask = none ∧
      s.codexCanaryRoute taskId retained =
        if retained then ({ s with canaryTask := some taskId }, .canary) else (s, .proceed)) := by
  unfold codexCanaryRoute
  by_cases hhost : s.host = .disabled
  · exact .inl ⟨_, by rw [if_pos hhost]⟩
  by_cases hworktree : s.worktree = .disabled
  · exact .inl ⟨_, by rw [if_neg hhost, if_pos hworktree]⟩
  have hopen : ¬ s.Closed := by simp [Closed, hhost, hworktree]
  rw [if_neg hhost, if_neg hworktree]
  cases hcanary : s.canary with
  | enabled => exact .inr (.inl ⟨hopen, rfl, rfl⟩)
  | disabled => exact .inl ⟨_, rfl⟩
  | pending =>
    cases htask : s.canaryTask with
    | some c => exact .inr (.inr (.inl ⟨hopen, rfl, c, rfl, rfl⟩))
    | none => exact .inr (.inr (.inr ⟨hopen, rfl, rfl, rfl⟩))

end CodexPreflightSession

/-! ## Turns -/

namespace Point

/-- The preparation runs as the canary. -/
def canary : Point → Bool
  | preflighting canary | invoking canary | settling canary _ => canary
  | starting | routing _ | replaying _ | returned => false

/-- The preparation was routed to Codex and its section behind Codex is still to come. -/
def atCodex : Point → Bool
  | preflighting _ | invoking _ | settling _ _ => true
  | starting | routing _ | replaying _ | returned => false

/-- The preparation of a selected task will come to the section that releases it. -/
def answers : Point → Bool
  | starting | routing _ => true
  | preflighting canary | invoking canary | settling canary _ => canary
  | replaying _ | returned => false

end Point

section Turns

variable (config : CodexConfig)

/-- What a preparation may do: the preparation of the selected canary goes on to its routing
section; a child that was started before is not started again over a closed session or beside a
canary; and no preparation selects itself. -/
def SmoothTurn (s : CodexPreflightSession) (p : Preparation) : Action → Prop
  | .start _ attempt reads =>
    (s.canaryTask = some p.taskId →
      attempt = .ok .absent ∧ ∃ retained, codexRoute config reads = .ok (some retained)) ∧
    (attempt = .ok .started → ¬ s.Closed ∧ s.canaryTask = none)
  | .route _ =>
    ¬ (p.point = .routing true ∧ ¬ s.Closed ∧ s.canary = .pending ∧ s.canaryTask = none)
  | _ => True

/-- A canary is selected only in an open session that waits for one. -/
def Guarded (s : CodexPreflightSession) : Prop :=
  ∀ c, s.canaryTask = some c → ¬ s.Closed ∧ s.canary = .pending

/-- What a smooth turn does. -/
structure Turned (s t : CodexPreflightSession) (p : Preparation) (point : Point) : Prop where
  session : s.Section t
  answers : t.canaryTask = some p.taskId → p.point.answers = true → point.answers = true
  enters : point.atCodex = true → p.point.atCodex = true ∨ s.canaryTask = none ∨
    s.canaryTask = some p.taskId
  flagged : point.canary = true → p.point.canary = true ∨ s.canaryTask = some p.taskId
  invokes : ∀ canary, point = .invoking canary → ¬ t.Closed

variable {config} {s t : CodexPreflightSession} {p : Preparation} {a : Action} {point : Point}

theorem open_of_kept (hguarded : Guarded s) (hsection : s.Section t) {c : String}
    (hc : t.canaryTask = some c) : ¬ t.Closed ∧ t.canary = .pending := by
  obtain ⟨hsc, hcanary, hhost, hworktree⟩ := hsection.kept c hc
  obtain ⟨hopen, hpending⟩ := hguarded c hsc
  unfold CodexPreflightSession.Closed at hopen ⊢
  rw [not_or] at hopen ⊢
  exact ⟨⟨hhost hopen.1, hworktree hopen.2⟩, hcanary.trans hpending⟩

theorem start_turned {i : Nat} {attempt : Reads Reservation} {reads : TaskReads}
    (hsmooth : SmoothTurn config s p (.start i attempt reads)) :
    Turned s s p (startPoint config attempt reads) := by
  obtain ⟨hown, hstarted⟩ := hsmooth
  have hrefl := CodexPreflightSession.Section.refl s
  match attempt with
  | .error e =>
    exact ⟨hrefl, fun hc _ => absurd (hown hc).1 (by simp), fun h => (nomatch h),
      fun h => (nomatch h), fun _ h => (nomatch h)⟩
  | .ok .started =>
    obtain ⟨hopen, hnone⟩ := hstarted rfl
    exact ⟨hrefl, fun hc _ => absurd (hown hc).1 (by simp), fun _ => .inr (.inl hnone),
      fun h => (nomatch h), fun _ _ => hopen⟩
  | .ok (.finalized downgrade) =>
    exact ⟨hrefl, fun hc _ => absurd (hown hc).1 (by simp), fun h => (nomatch h),
      fun h => (nomatch h), fun _ h => (nomatch h)⟩
  | .ok .absent =>
    cases hroute : codexRoute config reads with
    | error e =>
      have hp : startPoint config (.ok .absent) reads = .returned := by simp [startPoint, hroute]
      rw [hp]
      refine ⟨hrefl, fun hc _ => ?_, fun h => (nomatch h), fun h => (nomatch h),
        fun _ h => (nomatch h)⟩
      obtain ⟨-, retained, hr⟩ := hown hc
      rw [hroute] at hr
      cases hr
    | ok route =>
      cases route with
      | none =>
        have hp : startPoint config (.ok .absent) reads = .returned := by simp [startPoint, hroute]
        rw [hp]
        refine ⟨hrefl, fun hc _ => ?_, fun h => (nomatch h), fun h => (nomatch h),
          fun _ h => (nomatch h)⟩
        obtain ⟨-, retained, hr⟩ := hown hc
        rw [hroute] at hr
        cases hr
      | some retained =>
        have hp : startPoint config (.ok .absent) reads = .routing retained := by
          simp [startPoint, hroute]
        rw [hp]
        exact ⟨hrefl, fun _ _ => rfl, fun h => (nomatch h), fun h => (nomatch h),
          fun _ h => (nomatch h)⟩

theorem route_turned {i : Nat} {retained : Bool} (hguarded : Guarded s)
    (hsmooth : SmoothTurn config s p (.route i)) (hpoint : p.point = .routing retained) :
    Turned s (s.codexCanaryRoute p.taskId retained).1 p
      (routePoint (s.codexCanaryRoute p.taskId retained).2) := by
  have hrefl := CodexPreflightSession.Section.refl s
  rcases CodexPreflightSession.codexCanaryRoute_cases s p.taskId retained with
    ⟨scope, heq⟩ | ⟨hopen, henabled, heq⟩ | ⟨hopen, hpending, c, hc, heq⟩ |
      ⟨hopen, hpending, hnone, heq⟩
  · rw [heq]
    refine ⟨hrefl, fun hc _ => ?_, fun h => (nomatch h), fun h => (nomatch h),
      fun _ h => (nomatch h)⟩
    -- an open session that waits for its canary routes it
    obtain ⟨hopen, hpending⟩ := hguarded _ hc
    simp only [CodexPreflightSession.Closed, not_or] at hopen
    rw [CodexPreflightSession.codexCanaryRoute, if_neg hopen.1, if_neg hopen.2, hpending] at heq
    simp only at hc
    simp [hc] at heq
  · rw [heq]
    have hnone : s.canaryTask = none := by
      cases hc : s.canaryTask with
      | none => rfl
      | some c =>
        have := (hguarded c hc).2
        rw [henabled] at this
        cases this
    exact ⟨hrefl, fun hc _ => absurd hc (by simp [hnone]), fun _ => .inr (.inl hnone),
      fun h => (nomatch h), fun _ h => (nomatch h)⟩
  · rw [heq]
    by_cases hown : c = p.taskId
    · rw [if_pos hown]
      exact ⟨hrefl, fun _ _ => rfl, fun _ => .inr (.inr (hown ▸ hc)),
        fun _ => .inr (hown ▸ hc), fun _ h => (nomatch h)⟩
    · rw [if_neg hown]
      exact ⟨hrefl, fun hc' _ => absurd (Option.some.inj (hc.symm.trans hc')) hown,
        fun h => (nomatch h), fun h => (nomatch h), fun _ h => (nomatch h)⟩
  · cases retained with
    | true => exact absurd ⟨hpoint, hopen, hpending, hnone⟩ hsmooth
    | false =>
      rw [heq, if_neg (by decide)]
      exact ⟨hrefl, fun hc _ => absurd hc (by simp [hnone]), fun _ => .inr (.inl hnone),
        fun h => (nomatch h), fun _ h => (nomatch h)⟩

theorem preflight_turned {canary : Bool} {host worktree : CodexProbeDecision}
    (hguarded : Guarded s) (hpoint : p.point = .preflighting canary) :
    Turned s (s.codexPreflight host (some worktree)).1 p
      (if (s.codexPreflight host (some worktree)).2.isSome then .returned
        else .invoking canary) := by
  have hsection := s.codexPreflight_section host (some worktree)
  have hpasses := @CodexPreflightSession.codexPreflight_passes s host worktree
  generalize s.codexPreflight host (some worktree) = out at hsection hpasses
  obtain ⟨t, downgrade⟩ := out
  simp only at hsection hpasses ⊢
  cases hd : downgrade.isSome with
  | true =>
    rw [if_pos rfl]
    refine ⟨hsection, fun hc _ => ?_, fun h => (nomatch h), fun h => (nomatch h),
      fun _ h => (nomatch h)⟩
    have := hpasses.2 (open_of_kept hguarded hsection hc).1
    rw [hd] at this
    cases this
  | false =>
    rw [if_neg (by decide)]
    refine ⟨hsection, fun _ h => ?_, fun _ => .inl (by rw [hpoint]; rfl), fun h => .inl ?_,
      fun _ _ => hpasses.1 hd⟩
    · rw [hpoint] at h
      exact h
    · rw [hpoint]
      exact h

theorem turn_turned (hguarded : Guarded s) (hsmooth : SmoothTurn config s p a)
    (h : turn config s p a = some (t, point)) : Turned s t p point := by
  cases a with
  | start i attempt reads =>
    simp only [turn] at h
    split at h
    · obtain ⟨rfl, rfl⟩ := Prod.mk.inj (Option.some.inj h)
      exact start_turned hsmooth
    · cases h
  | route i =>
    simp only [turn] at h
    split at h
    · rename_i retained hpoint
      obtain ⟨rfl, rfl⟩ := Prod.mk.inj (Option.some.inj h)
      exact route_turned hguarded hsmooth hpoint
    · cases h
  | preflight i host worktree =>
    simp only [turn] at h
    split at h
    · rename_i canary hpoint
      obtain ⟨rfl, rfl⟩ := Prod.mk.inj (Option.some.inj h)
      exact preflight_turned hguarded hpoint
    · cases h
  | invoke i ending =>
    simp only [turn] at h
    split at h
    · rename_i canary hpoint
      obtain ⟨rfl, rfl⟩ := Prod.mk.inj (Option.some.inj h)
      refine ⟨.refl s, fun _ h => ?_, fun _ => .inl (by rw [hpoint]; rfl), fun h => .inl ?_,
        fun _ h => (nomatch h)⟩
      · rw [hpoint] at h
        exact h
      · rw [hpoint]
        exact h
    · cases h
  | replay i recorded =>
    simp only [turn] at h
    split at h
    · rename_i downgrade hpoint
      obtain ⟨rfl, rfl⟩ := Prod.mk.inj (Option.some.inj h)
      refine ⟨?_, fun _ h => ?_, fun h => (nomatch h), fun h => (nomatch h),
        fun _ h => (nomatch h)⟩
      · cases recorded with
        | false => exact .refl s
        | true =>
          cases downgrade with
          | none => exact .refl s
          | some scope => exact s.disable_section scope
      · rw [hpoint] at h
        cases h
    · cases h
  | settle i =>
    simp only [turn] at h
    split at h
    · rename_i canary ending hpoint
      obtain ⟨rfl, rfl⟩ := Prod.mk.inj (Option.some.inj h)
      have hsection := s.settle_section p.taskId canary ending
      refine ⟨hsection, fun hc h => ?_, fun h => (nomatch h), fun h => (nomatch h),
        fun _ h => (nomatch h)⟩
      rw [hpoint] at h
      -- settling the canary releases it, so it cannot be selected behind this turn
      obtain rfl : canary = true := h
      have hsc := (hsection.kept _ hc).1
      rw [CodexPreflightSession.settle_releases hsc] at hc
      cases hc
    · cases h
  | begin requests => cases h
  | review host => cases h
  | report scope => cases h

end Turns

/-! ## States -/

section States

variable (config : CodexConfig)

/-- The canary that a batch is armed with, by its requests in their order. -/
def armedTask (opening : CodexPreflightSession) (requests : List PrepareLeaf) : Option String :=
  match armCodexCanary config requests opening with
  | .ok session => session.canaryTask
  | .error _ => none

/-- A smooth step: every turn is, and on a host without Codex no batch has a task to select. -/
def Smooth (s : Headless) (a : Action) : Prop :=
  (∀ i p, a.index = some i → s.preparations[i]? = some p → SmoothTurn config s.session p a) ∧
  ∀ requests, a = .begin requests → s.session.host = .disabled → s.session.canary = .pending →
    ∀ c, selectCanary config requests ≠ .ok (some c)

/-- What every state of a smooth run keeps. -/
structure Sound (s : Headless) : Prop where
  guarded : Guarded s.session
  joined : s.session.worktree = .disabled → s.session.canary = .disabled
  chosen : ∀ c, s.session.canaryTask = some c → armedTask config s.opening s.requests = some c
  answered : ∀ c, s.session.canaryTask = some c →
    ∃ p ∈ s.preparations, p.taskId = c ∧ p.point.answers = true
  alone : ∀ c, s.session.canaryTask = some c →
    ∀ p ∈ s.preparations, p.point.atCodex = true → p.taskId = c
  flagged : ∀ p ∈ s.preparations, p.point.canary = true →
    armedTask config s.opening s.requests = some p.taskId

variable {config} {s t : Headless} {a : Action}

/-- Every step begins a batch, is somebody else's section, or is a turn of a preparation. -/
theorem next_cases (h : next config s a = some t) :
    (∃ requests session, a = .begin requests ∧ (∀ p ∈ s.preparations, p.point = .returned) ∧
      armCodexCanary config requests s.session = .ok session ∧
      t = ⟨session, requests.map fun request => ⟨request.taskId, .starting⟩, s.batches + 1,
        s.session, requests⟩) ∨
    (∃ session, a.index = none ∧ aside s.session a = some session ∧
      t = { s with session := session }) ∨
    ∃ i p session point, a.index = some i ∧ s.preparations[i]? = some p ∧
      turn config s.session p a = some (session, point) ∧
      t = { s with
        session := session
        preparations := s.preparations.set i { p with point := point } } := by
  cases a with
  | begin requests =>
    refine .inl ?_
    simp only [next, beginBatch] at h
    split at h
    · rename_i hall
      split at h
      · rename_i session harm
        obtain rfl := Option.some.inj h
        refine ⟨requests, session, rfl, fun p hp => ?_, harm, rfl⟩
        simpa using List.all_eq_true.1 hall p hp
      · cases h
    · cases h
  | review host =>
    simp only [next, Action.index, Option.map_eq_some_iff] at h
    obtain ⟨session, hs, rfl⟩ := h
    exact .inr (.inl ⟨session, rfl, hs, rfl⟩)
  | report scope =>
    simp only [next, Action.index, Option.map_eq_some_iff] at h
    obtain ⟨session, hs, rfl⟩ := h
    exact .inr (.inl ⟨session, rfl, hs, rfl⟩)
  | start i _ _ | route i | preflight i _ _ | invoke i _ | replay i _ | settle i =>
    simp only [next, Action.index, Option.bind_eq_bind, Option.bind_eq_some_iff] at h
    obtain ⟨p, hp, ⟨session, point⟩, hturn, h⟩ := h
    exact .inr (.inr ⟨i, p, session, point, rfl, hp, hturn, (Option.some.inj h).symm⟩)

theorem aside_section {session u : CodexPreflightSession} (h : aside session a = some u) :
    session.Section u := by
  cases a with
  | review host =>
    obtain rfl := Option.some.inj h
    exact session.codexPreflight_section host none
  | report scope =>
    obtain rfl := Option.some.inj h
    exact session.disable_section scope
  | _ => cases h

theorem arm_session {requests : List PrepareLeaf} {session u : CodexPreflightSession}
    (h : armCodexCanary config requests session = .ok u) :
    u = session ∨ session.canary = .pending ∧ ∃ c, selectCanary config requests = .ok (some c) ∧
      u = { session with canaryTask := some c } := by
  unfold armCodexCanary at h
  split at h
  · exact .inl (Except.ok.inj h).symm
  · rename_i hpending
    simp only [not_or, ne_eq, not_not] at hpending
    cases hselect : selectCanary config requests with
    | error e => rw [hselect] at h; cases h
    | ok selected =>
      rw [hselect] at h
      cases selected with
      | none => exact .inl (Except.ok.inj h).symm
      | some c => exact .inr ⟨hpending.1, c, rfl, (Except.ok.inj h).symm⟩

theorem selectCanary_requested {requests : List PrepareLeaf} {c : String}
    (h : selectCanary config requests = .ok (some c)) : ∃ r ∈ requests, r.taskId = c := by
  induction requests with
  | nil => cases Except.ok.inj h
  | cons r requests ih =>
    unfold selectCanary at h
    cases hroute : codexRoute config r.reads with
    | error e => rw [hroute] at h; cases h
    | ok route =>
      rw [hroute] at h
      match route with
      | some true =>
        exact ⟨r, List.mem_cons_self, Option.some.inj (Except.ok.inj h)⟩
      | some false | none =>
        obtain ⟨r', hr', hc⟩ := ih h
        exact ⟨r', List.mem_cons_of_mem _ hr', hc⟩

/-- **A batch begins soundly**: the canary it is armed with has a preparation in it. -/
theorem begin_sound {requests : List PrepareLeaf} {session : CodexPreflightSession}
    (hs : Sound config s) (hreturned : ∀ p ∈ s.preparations, p.point = .returned)
    (harm : armCodexCanary config requests s.session = .ok session)
    (hhost : s.session.host = .disabled → s.session.canary = .pending →
      ∀ c, selectCanary config requests ≠ .ok (some c)) :
    Sound config ⟨session, requests.map fun request => ⟨request.taskId, .starting⟩, s.batches + 1,
      s.session, requests⟩ := by
  -- the batch before has returned, so nobody answers for a canary of it
  have hfree : s.session.canaryTask = none := by
    cases hc : s.session.canaryTask with
    | none => rfl
    | some c =>
      obtain ⟨p, hp, -, hanswers⟩ := hs.answered c hc
      rw [hreturned p hp] at hanswers
      cases hanswers
  have hstart : ∀ p ∈ requests.map fun request => (⟨request.taskId, .starting⟩ : Preparation),
      p.point = .starting := by
    intro p hp
    obtain ⟨r, -, rfl⟩ := List.mem_map.1 hp
    rfl
  have hchosen : ∀ c, session.canaryTask = some c →
      armedTask config s.session requests = some c := by
    intro c hc
    rw [armedTask, harm]
    exact hc
  have halone : ∀ c, session.canaryTask = some c →
      ∀ p ∈ requests.map fun request => (⟨request.taskId, .starting⟩ : Preparation),
        p.point.atCodex = true → p.taskId = c := by
    intro c _ p hp hcodex
    rw [hstart p hp] at hcodex
    cases hcodex
  have hflagged : ∀ p ∈ requests.map fun request => (⟨request.taskId, .starting⟩ : Preparation),
      p.point.canary = true → armedTask config s.session requests = some p.taskId := by
    intro p hp hcanary
    rw [hstart p hp] at hcanary
    cases hcanary
  rcases arm_session harm with rfl | ⟨hpending, c, hselect, rfl⟩
  · exact ⟨hs.guarded, hs.joined, hchosen, fun c hc => absurd hc (by simp [hfree]), halone,
      hflagged⟩
  · refine ⟨fun c' _ => ⟨?_, hpending⟩, hs.joined, hchosen, fun c' hc' => ?_, halone, hflagged⟩
    · -- an armed session is open: the host by the smooth step, the worktrees with the canary
      rintro (hdown | hdown)
      · exact hhost hdown hpending c hselect
      · have := hs.joined hdown
        rw [hpending] at this
        cases this
    · obtain rfl := Option.some.inj hc'
      obtain ⟨r, hr, rfl⟩ := selectCanary_requested hselect
      exact ⟨_, List.mem_map_of_mem hr, rfl, rfl⟩

theorem aside_sound {session : CodexPreflightSession} (hs : Sound config s)
    (hsection : s.session.Section session) : Sound config { s with session := session } where
  guarded := fun _ hc => open_of_kept hs.guarded hsection hc
  joined := hsection.joined hs.joined fun hne => by
    obtain ⟨c, hc⟩ := Option.ne_none_iff_exists'.1 hne
    exact fun hdown => (hs.guarded c hc).1 (.inr hdown)
  chosen := fun c hc => hs.chosen c (hsection.kept c hc).1
  answered := fun c hc => hs.answered c (hsection.kept c hc).1
  alone := fun c hc => hs.alone c (hsection.kept c hc).1
  flagged := hs.flagged

/-- **A smooth turn is sound**. -/
theorem turn_sound {i : Nat} {p : Preparation} {session : CodexPreflightSession} {point : Point}
    (hs : Sound config s) (hp : s.preparations[i]? = some p)
    (hturned : Turned s.session session p point) :
    Sound config { s with
      session := session
      preparations := s.preparations.set i { p with point := point } } := by
  have hmem : p ∈ s.preparations := List.mem_of_getElem? hp
  have hlt : i < s.preparations.length := (List.getElem?_eq_some_iff.1 hp).1
  have hrest := aside_sound hs hturned.session
  refine ⟨hrest.guarded, hrest.joined, hrest.chosen, fun c hc => ?_, fun c hc q hq hcodex => ?_,
    fun q hq hcanary => ?_⟩
  · -- who answered before answers still, or has moved on without releasing the canary
    obtain ⟨q, hq, htask, hanswers⟩ := hs.answered c (hturned.session.kept c hc).1
    obtain ⟨j, hj⟩ := List.mem_iff_getElem?.1 hq
    by_cases hij : i = j
    · subst hij
      obtain rfl := Option.some.inj (hp.symm.trans hj)
      exact ⟨_, List.mem_set hlt _, htask, hturned.answers (htask ▸ hc) hanswers⟩
    · exact ⟨q, List.mem_of_getElem? ((List.getElem?_set_ne hij).trans hj), htask, hanswers⟩
  · have hsc := (hturned.session.kept c hc).1
    rcases List.mem_or_eq_of_mem_set hq with hq | rfl
    · exact hs.alone c hsc q hq hcodex
    · -- a preparation comes to Codex while no canary is selected, or as the canary
      rcases hturned.enters hcodex with hbefore | hnone | hown
      · exact hs.alone c hsc p hmem hbefore
      · rw [hnone] at hsc
        cases hsc
      · exact Option.some.inj (hown.symm.trans hsc)
  · rcases List.mem_or_eq_of_mem_set hq with hq | rfl
    · exact hs.flagged q hq hcanary
    · rcases hturned.flagged hcanary with hbefore | hown
      · exact hs.flagged p hmem hbefore
      · exact hs.chosen _ hown

theorem next_sound (hs : Sound config s) (hsmooth : Smooth config s a)
    (h : next config s a = some t) : Sound config t := by
  rcases next_cases h with ⟨requests, session, rfl, hreturned, harm, rfl⟩ |
    ⟨session, -, haside, rfl⟩ | ⟨i, p, session, point, hindex, hp, hturn, rfl⟩
  · exact begin_sound hs hreturned harm (hsmooth.2 requests rfl)
  · exact aside_sound hs (aside_section haside)
  · exact turn_sound hs hp (turn_turned hs.guarded (hsmooth.1 i p hindex hp) hturn)

theorem initial_sound : Sound config .initial where
  guarded := fun _ h => (nomatch h)
  joined := fun h => (nomatch h)
  chosen := fun _ h => (nomatch h)
  answered := fun _ h => (nomatch h)
  alone := fun _ h => (nomatch h)
  flagged := fun _ h => (nomatch h)

theorem sound_of_reach (h : Reach (next config) (Smooth config) .initial s) : Sound config s :=
  h.invariant initial_sound fun _ _ _ hs hok hn => next_sound hs hok hn

end States

/-! ## The protocol -/

section Protocol

variable (config : CodexConfig)

/-- The preparation at this index has passed its routing and preflight sections. -/
def Headless.Invoking (s : Headless) (i : Nat) : Prop :=
  ∃ p canary, s.preparations[i]? = some p ∧ p.point = .invoking canary

/-- The protocol over a run from `s` with the trace `tr` to `t`. -/
structure Protocol (s : Headless) (tr : List (Headless × Action)) (t : Headless) : Prop where
  /-- a route that is disabled stays disabled -/
  host : s.session.host = .disabled → t.session.host = .disabled
  worktree : s.session.worktree = .disabled → t.session.worktree = .disabled
  /-- then only preparations that had passed their preflight spawn Codex -/
  spawns : s.session.Closed → ∀ x ∈ tr, ∀ i ending, x.2 = .invoke i (some ending) →
    x.1.batches = s.batches ∧ s.Invoking i
  /-- beside a selected canary no other task is at Codex, and none is routed there -/
  alone : ∀ c, t.session.canaryTask = some c →
    ∀ p ∈ t.preparations, p.point.atCodex = true → p.taskId = c
  routed : ∀ c, t.session.canaryTask = some c → ∀ taskId retained, taskId ≠ c →
    routePoint (t.session.codexCanaryRoute taskId retained).2 = .returned
  /-- one task at most runs as the canary of a batch -/
  one : ∀ p ∈ t.preparations, ∀ q ∈ t.preparations, p.point.canary = true →
    q.point.canary = true → p.taskId = q.taskId
  /-- it is the one that the requests of the batch decide, in their order -/
  chosen : ∀ c, t.session.canaryTask = some c →
    armedTask config t.opening t.requests = some c
  /-- a batch that has returned leaves none selected -/
  released : (∀ p ∈ t.preparations, p.point = .returned) → t.session.canaryTask = none

variable {config} {s t : Headless} {a : Action}

theorem next_stays (hs : Sound config s) (hsmooth : Smooth config s a)
    (h : next config s a = some t) :
    (s.session.host = .disabled → t.session.host = .disabled) ∧
      (s.session.worktree = .disabled → t.session.worktree = .disabled) := by
  rcases next_cases h with ⟨requests, session, rfl, -, harm, rfl⟩ |
    ⟨session, -, haside, rfl⟩ | ⟨i, p, session, point, hindex, hp, hturn, rfl⟩
  · rcases arm_session harm with rfl | ⟨-, c, -, rfl⟩ <;> exact ⟨id, id⟩
  · exact ⟨(aside_section haside).host, (aside_section haside).worktree⟩
  · have hturned := turn_turned hs.guarded (hsmooth.1 i p hindex hp) hturn
    exact ⟨hturned.session.host, hturned.session.worktree⟩

theorem next_closed (hs : Sound config s) (hsmooth : Smooth config s a)
    (h : next config s a = some t) (hclosed : s.session.Closed) : t.session.Closed := by
  obtain ⟨hhost, hworktree⟩ := next_stays hs hsmooth h
  exact hclosed.imp hhost hworktree

/-- **Behind a closed session** no preparation comes to its invocation. -/
theorem next_invoking (hs : Sound config s) (hsmooth : Smooth config s a)
    (h : next config s a = some t) (hclosed : s.session.Closed) {i : Nat} (hi : t.Invoking i) :
    t.batches = s.batches ∧ s.Invoking i := by
  have hclosed' := next_closed hs hsmooth h hclosed
  obtain ⟨q, canary, hq, hpoint⟩ := hi
  rcases next_cases h with ⟨requests, session, rfl, -, -, rfl⟩ |
    ⟨session, -, haside, rfl⟩ | ⟨j, p, session, point, hindex, hp, hturn, rfl⟩
  · obtain ⟨r, -, rfl⟩ := List.mem_map.1 (List.mem_of_getElem? hq)
    cases hpoint
  · exact ⟨rfl, q, canary, hq, hpoint⟩
  · -- the preparation that takes its turn does not pass a preflight of a closed session
    have hturned := turn_turned hs.guarded (hsmooth.1 j p hindex hp) hturn
    by_cases hij : j = i
    · subst hij
      have hlt : j < s.preparations.length := (List.getElem?_eq_some_iff.1 hp).1
      simp only [List.getElem?_set_self hlt, Option.some.injEq] at hq
      obtain rfl := hq
      exact absurd hclosed' (hturned.invokes canary hpoint)
    · refine ⟨rfl, q, canary, ?_, hpoint⟩
      rw [← hq]
      exact (List.getElem?_set_ne hij).symm

/-- Codex is spawned by a preparation at its invocation. -/
theorem invoking_of_spawn {i : Nat} {ending : Option Ending}
    (h : next config s (.invoke i ending) = some t) : s.Invoking i := by
  rcases next_cases h with ⟨_, _, ha, -⟩ | ⟨_, ha, -⟩ | ⟨j, p, session, point, hindex, hp, hturn, -⟩
  · cases ha
  · cases ha
  · obtain rfl := Option.some.inj hindex
    simp only [turn] at hturn
    split at hturn
    · rename_i canary hpoint
      exact ⟨p, canary, hp, hpoint⟩
    · cases hturn

/-- What a smooth run keeps behind a closed session. -/
theorem closed_run {tr : List (Headless × Action)} (hs : Sound config s)
    (h : Run (next config) s tr t) (hsmooth : ∀ x ∈ tr, Smooth config x.1 x.2)
    (hclosed : s.session.Closed) :
    t.session.Closed ∧ (∀ i, t.Invoking i → t.batches = s.batches ∧ s.Invoking i) ∧
      ∀ x ∈ tr, ∀ i ending, x.2 = .invoke i (some ending) →
        x.1.batches = s.batches ∧ s.Invoking i := by
  induction h with
  | nil => exact ⟨hclosed, fun i hi => ⟨rfl, hi⟩, by simp⟩
  | @snoc tr u a v hr hn ih =>
    obtain ⟨hu, hinvoking, hspawns⟩ := ih fun x hx => hsmooth x (List.mem_append_left _ hx)
    have hok := hsmooth (u, a) (by simp)
    have hsu : Sound config u :=
      (hr.reach fun x hx => hsmooth x (List.mem_append_left _ hx)).invariant hs
        fun _ _ _ hs hok hn => next_sound hs hok hn
    refine ⟨next_closed hsu hok hn hu, fun i hi => ?_, fun x hx i ending he => ?_⟩
    · obtain ⟨hbatch, hi⟩ := next_invoking hsu hok hn hu hi
      obtain ⟨hbatch', hi⟩ := hinvoking i hi
      exact ⟨hbatch.trans hbatch', hi⟩
    · rcases List.mem_append.1 hx with hx | hx
      · exact hspawns x hx i ending he
      · obtain rfl := List.mem_singleton.1 hx
        simp only at he
        subst he
        exact hinvoking i (invoking_of_spawn hn)

theorem stays_run {tr : List (Headless × Action)} (hs : Sound config s)
    (h : Run (next config) s tr t) (hsmooth : ∀ x ∈ tr, Smooth config x.1 x.2) :
    (s.session.host = .disabled → t.session.host = .disabled) ∧
      (s.session.worktree = .disabled → t.session.worktree = .disabled) := by
  induction h with
  | nil => exact ⟨id, id⟩
  | @snoc tr u a v hr hn ih =>
    obtain ⟨hhost, hworktree⟩ := ih fun x hx => hsmooth x (List.mem_append_left _ hx)
    have hsu : Sound config u :=
      (hr.reach fun x hx => hsmooth x (List.mem_append_left _ hx)).invariant hs
        fun _ _ _ hs hok hn => next_sound hs hok hn
    obtain ⟨hhost', hworktree'⟩ := next_stays hsu (hsmooth (u, a) (by simp)) hn
    exact ⟨fun hd => hhost' (hhost hd), fun hd => hworktree' (hworktree hd)⟩

/-- A selected canary sends every other task to Claude. -/
theorem Sound.routed (hs : Sound config s) {c : String} (hc : s.session.canaryTask = some c)
    {taskId : String} (hother : taskId ≠ c) (retained : Bool) :
    routePoint (s.session.codexCanaryRoute taskId retained).2 = .returned := by
  obtain ⟨hopen, hpending⟩ := hs.guarded c hc
  simp only [CodexPreflightSession.Closed, not_or] at hopen
  rw [CodexPreflightSession.codexCanaryRoute, if_neg hopen.1, if_neg hopen.2, hpending]
  simp only [hc, if_neg hother.symm, routePoint]

/-- **The canary protocol**: over every smooth run, however the preparations interleave. -/
theorem canary_protocol (config : CodexConfig) {tr tr' : List (Headless × Action)} {s t : Headless}
    (h : Run (next config) .initial tr s) (h' : Run (next config) s tr' t)
    (hsmooth : ∀ x ∈ tr, Smooth config x.1 x.2) (hsmooth' : ∀ x ∈ tr', Smooth config x.1 x.2) :
    Protocol config s tr' t := by
  have hs : Sound config s := sound_of_reach (h.reach hsmooth)
  have ht : Sound config t := (h'.reach hsmooth').invariant hs
    fun _ _ _ hs hok hn => next_sound hs hok hn
  obtain ⟨hhost, hworktree⟩ := stays_run hs h' hsmooth'
  refine ⟨hhost, hworktree, fun hclosed => (closed_run hs h' hsmooth' hclosed).2.2, ht.alone,
    fun c hc taskId retained hother => ht.routed hc hother retained,
    fun p hp q hq hpc hqc => ?_, ht.chosen, fun hreturned => ?_⟩
  · have := (ht.flagged p hp hpc).symm.trans (ht.flagged q hq hqc)
    exact Option.some.inj this
  · cases hc : t.session.canaryTask with
    | none => rfl
    | some c =>
      obtain ⟨p, hp, -, hanswers⟩ := ht.answered c hc
      rw [hreturned p hp] at hanswers
      cases hanswers

end Protocol

/-! ## Runs -/

section Trials

variable {config : CodexConfig} {s : Headless} {i : Nat}

theorem smooth_begin {requests : List PrepareLeaf} (h : s.session.host ≠ .disabled) :
    Smooth config s (.begin requests) :=
  ⟨fun _ _ hi => (nomatch hi), fun _ _ hhost => absurd hhost h⟩

theorem smooth_start {reads : TaskReads} {retained : Bool}
    (h : codexRoute config reads = .ok (some retained)) :
    Smooth config s (.start i (.ok .absent) reads) :=
  ⟨fun _ _ _ _ => ⟨fun _ => ⟨rfl, retained, h⟩, fun h => (nomatch h)⟩, fun _ h => (nomatch h)⟩

theorem smooth_route (h : s.session.canaryTask ≠ none) : Smooth config s (.route i) :=
  ⟨fun _ _ _ _ hself => h hself.2.2.2, fun _ h => (nomatch h)⟩

theorem smooth_preflight {host worktree : CodexProbeDecision} :
    Smooth config s (.preflight i host worktree) :=
  ⟨fun _ _ _ _ => trivial, fun _ h => (nomatch h)⟩

theorem smooth_invoke {ending : Option Ending} : Smooth config s (.invoke i ending) :=
  ⟨fun _ _ _ _ => trivial, fun _ h => (nomatch h)⟩

theorem smooth_settle : Smooth config s (.settle i) :=
  ⟨fun _ _ _ _ => trivial, fun _ h => (nomatch h)⟩

namespace Trial

def coders : CodexConfig := ⟨.fastStd, true⟩

/-- A task whose worktree limit is retained. -/
def retained : TaskReads := ⟨.ok .coder, .ok none, .ok (some .sandboxInitWorktree)⟩

def plain : TaskReads := ⟨.ok .coder, .ok none, .ok none⟩

def batch : List PrepareLeaf := [⟨"T-1", retained⟩, ⟨"T-2", plain⟩]

/-- The canary is routed, passes its preflight and succeeds. -/
def actions : List Action :=
  [.begin batch, .start 0 (.ok .absent) retained, .route 0, .preflight 0 .unchanged .unchanged,
    .invoke 0 (some .success), .settle 0]

/-- The state behind the first `n` of them. -/
def after (n : Nat) : Headless :=
  ((exec (next coders) .initial (actions.take n)).getD .initial)

theorem selected :
    Run (next coders) .initial
      [(after 0, .begin batch), (after 1, .start 0 (.ok .absent) retained)] (after 2) :=
  .snoc (.snoc .nil (show next coders (after 0) _ = some (after 1) by decide +kernel))
    (by decide +kernel)

theorem succeeds :
    Run (next coders) (after 2)
      [(after 2, .route 0), (after 3, .preflight 0 .unchanged .unchanged),
        (after 4, .invoke 0 (some .success)), (after 5, .settle 0)] (after 6) :=
  .snoc (.snoc (.snoc (.snoc .nil (show next coders _ _ = some (after 3) by decide +kernel))
    (show next coders _ _ = some (after 4) by decide +kernel))
    (show next coders _ _ = some (after 5) by decide +kernel)) (by decide +kernel)

end Trial

open Trial

theorem canary_protocol_succeeds :
    (after 2).session.canaryTask = some "T-1" ∧ (after 6).session.canary = .enabled ∧
      Protocol coders (after 2)
        [(after 2, .route 0), (after 3, .preflight 0 .unchanged .unchanged),
          (after 4, .invoke 0 (some .success)), (after 5, .settle 0)] (after 6) := by
  have hroute : codexRoute coders retained = .ok (some true) := by decide +kernel
  refine ⟨by decide +kernel, by decide +kernel, canary_protocol coders selected succeeds ?_ ?_⟩
  · simp only [List.forall_mem_cons]
    exact ⟨smooth_begin (by decide +kernel), smooth_start hroute, by simp⟩
  · simp only [List.forall_mem_cons]
    exact ⟨smooth_route (by decide +kernel), smooth_preflight, smooth_invoke, smooth_settle,
      by simp⟩

/-- A canary whose attempt is replayed stays selected when its batch has returned. -/
theorem canary_protocol_stuck :
    ¬ ∀ (config : CodexConfig) (t : Headless),
      Reach (next config) (fun _ _ => True) .initial t →
        (∀ p ∈ t.preparations, p.point = .returned) → t.session.canaryTask = none := by
  intro hall
  have hrun : (exec (guarded (fun _ _ => true) (next coders)) .initial
      [.begin batch, .start 0 (.ok (.finalized none)) retained, .replay 0 true,
        .start 1 (.ok .absent) plain, .route 1]).any (fun t =>
          decide (t.session.canaryTask = some "T-1") &&
            t.preparations.all fun p => decide (p.point = .returned)) = true := by decide +kernel
  obtain ⟨t, hreach, ht⟩ := exec_any hrun
  simp only [Bool.and_eq_true, decide_eq_true_eq, List.all_eq_true] at ht
  have hnone := hall coders t (hreach.mono fun _ _ _ => trivial) ht.2
  rw [hnone] at ht
  cases ht.1

end Trials

end Orchestrail.Canary
