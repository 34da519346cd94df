import Orchestrail.Proof.ConsoleGate

/-!
# What the console does is confirmed

Over a run the gate keeps where its flow comes from (`Origin`): the key that armed it, the card that
was selected then and has been in every refresh since, and the text typed since. With the routers
following the gate, a decision and a force-lock come out of their own flow only.
-/

namespace Orchestrail.Console

open Text

/-! ## Where a flow comes from -/

/-- The text typed in some steps. -/
def typedIn (steps : List Step) : List Char :=
  steps.foldl (fun typed next => match next with
    | .key key _ => edit typed key
    | _ => typed) []

/-- No key is pressed in these steps. -/
def Keyless (steps : List Step) : Prop := ∀ key answer, .key key answer ∉ steps

/-- The last steps of the run are those since the key `ch` opened a flow on the selected card, and
every refresh among them had the card. -/
structure Armed (front : List Step) (ch : Char) (card : ApprovalCard) (since : List Step) :
    Prop where
  begun : ∃ before answer, front = before ++ .key ⟨.char ch, {}⟩ answer :: since ∧
    (run {} before).modal = .none ∧ (run {} before).screen = .decisionInbox ∧
    (run {} before).pendingApproval = some card
  pending : ∀ approvals, .refresh approvals ∈ since → card ∈ approvals

def Origin (front : List Step) : Gate → Prop
  | .closed => True
  | .lock => ∃ before answer since,
    front = before ++ .key ⟨.char 'x', {}⟩ answer :: since ∧ Keyless since
  | .approve card => ∃ since, Armed front 'a' card since ∧ Keyless since
  | .typing card typed => ∃ since, Armed front 'd' card since ∧ typed = typedIn since
  | .reject card reason => ∃ since, Armed front 'd' card since ∧ reason = trim (typedIn since) ∧
    reason ≠ []

section Runs

variable {front since : List Step} {ch : Char} {card : ApprovalCard}

theorem run_append (app : AppState) (front : List Step) (next : Step) :
    run app (front ++ [next]) = (step (run app front) next).1 := by
  unfold run
  rw [List.foldl_append]
  rfl

theorem gateAfter_append (front : List Step) (next : Step) : ∀ (app : AppState) (gate : Gate),
    gateAfter app (front ++ [next]) gate =
      (gateAfter app front gate).next (run app front) next := by
  induction front with
  | nil => exact fun _ _ => rfl
  | cons first front ih => exact fun app gate => ih (step app first).1 (gate.next app first)

theorem typedIn_key (since : List Step) (key : KeyEvent) (answer : List ApprovalCard) :
    typedIn (since ++ [.key key answer]) = edit (typedIn since) key := by
  unfold typedIn
  rw [List.foldl_append]
  rfl

theorem typedIn_other (since : List Step) {next : Step} (h : ∀ key answer, next ≠ .key key answer) :
    typedIn (since ++ [next]) = typedIn since := by
  unfold typedIn
  rw [List.foldl_append]
  cases next with
  | refresh approvals => rfl
  | journal batchId => rfl
  | key key answer => exact absurd rfl (h key answer)

theorem Armed.later {next : Step} (h : Armed front ch card since)
    (hpending : ∀ approvals, next = .refresh approvals → card ∈ approvals) :
    Armed (front ++ [next]) ch card (since ++ [next]) where
  begun := by
    obtain ⟨before, answer, rfl, hstate⟩ := h.begun
    exact ⟨before, answer, by simp, hstate⟩
  pending approvals hmem := by
    rcases List.mem_append.1 hmem with hmem | hmem
    · exact h.pending approvals hmem
    · exact hpending approvals (List.mem_singleton.1 hmem).symm

theorem Keyless.later {next : Step} (h : Keyless since)
    (hnext : ∀ key answer, next ≠ .key key answer) : Keyless (since ++ [next]) := by
  intro key answer hmem
  rcases List.mem_append.1 hmem with hmem | hmem
  · exact h key answer hmem
  · exact hnext key answer (List.mem_singleton.1 hmem).symm

/-- The card of a flow that a refresh leaves open is pending. -/
theorem mem_of_refreshed {gate : Gate} {approvals : List ApprovalCard}
    (hgate : gate = .approve card ∨ (∃ typed, gate = .typing card typed) ∨
      ∃ reason, gate = .reject card reason)
    (h : gate.refreshed approvals = gate) : card ∈ approvals := by
  by_contra hmem
  rcases hgate with rfl | ⟨typed, rfl⟩ | ⟨reason, rfl⟩
  all_goals
    rw [Gate.refreshed, if_neg hmem] at h
    cases h

/-- A flow goes on over a step that is no key and leaves its card pending. -/
theorem origin_idle {gate : Gate} {next : Step} (h : Origin front gate)
    (hnext : ∀ key answer, next ≠ .key key answer)
    (hpending : ∀ approvals, next = .refresh approvals → gate.refreshed approvals = gate) :
    Origin (front ++ [next]) gate := by
  cases gate with
  | closed => trivial
  | lock =>
    obtain ⟨before, answer, since, rfl, hkeyless⟩ := h
    exact ⟨before, answer, since ++ [next], by simp, hkeyless.later hnext⟩
  | approve card =>
    obtain ⟨since, harmed, hkeyless⟩ := h
    have hlater := harmed.later fun approvals hrefresh =>
      mem_of_refreshed (.inl rfl) (hpending approvals hrefresh)
    exact ⟨since ++ [next], hlater, hkeyless.later hnext⟩
  | typing card typed =>
    obtain ⟨since, harmed, htyped⟩ := h
    have hlater := harmed.later fun approvals hrefresh =>
      mem_of_refreshed (.inr (.inl ⟨typed, rfl⟩)) (hpending approvals hrefresh)
    rw [← typedIn_other since hnext] at htyped
    exact ⟨since ++ [next], hlater, htyped⟩
  | reject card reason =>
    obtain ⟨since, harmed, hreason⟩ := h
    have hlater := harmed.later fun approvals hrefresh =>
      mem_of_refreshed (.inr (.inr ⟨reason, rfl⟩)) (hpending approvals hrefresh)
    rw [← typedIn_other since hnext] at hreason
    exact ⟨since ++ [next], hlater, hreason⟩

theorem refreshed_cases (gate : Gate) (approvals : List ApprovalCard) :
    gate.refreshed approvals = gate ∨ gate.refreshed approvals = .closed := by
  cases gate with
  | closed => exact .inl rfl
  | lock => exact .inl rfl
  | approve card => exact ite_eq_or_eq _ _ _
  | typing card typed => exact ite_eq_or_eq _ _ _
  | reject card reason => exact ite_eq_or_eq _ _ _

/-- The key that arms a flow is where it comes from. -/
theorem origin_armed (key : KeyEvent) (answer : List ApprovalCard)
    (h : (run {} front).modal = .none) :
    Origin (front ++ [.key key answer]) (armed (run {} front) key) := by
  have hnothing : Keyless [] := fun _ _ hmem => by cases hmem
  have harmed : ∀ ch card, key = ⟨.char ch, {}⟩ → (run {} front).screen = .decisionInbox →
      (run {} front).pendingApproval = some card →
      Armed (front ++ [.key key answer]) ch card [] := by
    rintro ch card rfl hscreen hp
    exact ⟨⟨front, answer, rfl, h, hscreen, hp⟩, fun _ hmem => by cases hmem⟩
  unfold armed
  by_cases hfilter : (run {} front).eventLogFilterInput.isSome = true
  · rw [if_pos hfilter]
    trivial
  rw [if_neg hfilter]
  by_cases hx : key = ⟨.char 'x', {}⟩
  · rw [if_pos hx]
    exact ⟨front, answer, [], by rw [hx], hnothing⟩
  rw [if_neg hx]
  by_cases hscreen : (run {} front).screen = .decisionInbox
  · rw [if_pos hscreen]
    cases hp : (run {} front).pendingApproval with
    | none => trivial
    | some card =>
      dsimp only
      by_cases ha : key = ⟨.char 'a', {}⟩
      · rw [if_pos ha]
        exact ⟨[], harmed 'a' card ha hscreen hp, hnothing⟩
      rw [if_neg ha]
      by_cases hd : key = ⟨.char 'd', {}⟩
      · rw [if_pos hd]
        exact ⟨[], harmed 'd' card hd hscreen hp, rfl⟩
      · rw [if_neg hd]
        trivial
  · rw [if_neg hscreen]
    trivial

/-- **A step** leads from an origin to an origin. -/
theorem origin_next {gate : Gate} (next : Step) (h : Origin front gate)
    (hshows : Shows (run {} front) gate) :
    Origin (front ++ [next]) (gate.next (run {} front) next) := by
  cases next with
  | refresh approvals =>
    show Origin _ (gate.refreshed approvals)
    rcases refreshed_cases gate approvals with hsame | hclosed
    · rw [hsame]
      refine origin_idle h (fun _ _ hkey => by cases hkey) ?_
      rintro _ ⟨⟩
      exact hsame
    · rw [hclosed]
      trivial
  | journal batchId =>
    exact origin_idle h (fun _ _ hkey => by cases hkey) fun _ hrefresh => by cases hrefresh
  | key key answer =>
    cases gate with
    | closed => exact origin_armed key answer hshows
    | lock => trivial
    | approve card => trivial
    | reject card reason => trivial
    | typing card typed =>
      obtain ⟨since, harmed, rfl⟩ := h
      have hlater : Armed (front ++ [.key key answer]) 'd' card (since ++ [.key key answer]) :=
        harmed.later fun _ hrefresh => by cases hrefresh
      show Origin _ (if key.code = .esc then .closed
        else if key = ⟨.enter, {}⟩ then
          if trim (typedIn since) = [] then .typing card (typedIn since)
          else .reject card (trim (typedIn since))
        else .typing card (edit (typedIn since) key))
      by_cases hesc : key.code = .esc
      · rw [if_pos hesc]
        trivial
      rw [if_neg hesc]
      by_cases henter : key = ⟨.enter, {}⟩
      -- Enter types nothing; it takes the text to its confirmation, or stays with a blank one
      · have htyped : typedIn (since ++ [.key key answer]) = typedIn since := by
          rw [typedIn_key, henter]
          exact edit_other _ (by simp) rfl
        rw [if_pos henter]
        by_cases hblank : trim (typedIn since) = []
        · rw [if_pos hblank]
          exact ⟨_, hlater, htyped.symm⟩
        · rw [if_neg hblank]
          exact ⟨_, hlater, by rw [htyped], hblank⟩
      · rw [if_neg henter]
        exact ⟨_, hlater, (typedIn_key since key answer).symm⟩

end Runs

/-! ## Runs -/

/-- What a step of a run does, by what has happened so far. -/
structure Gated (front : List Step) (next : Step) : Prop where
  decides : ∀ id backend decision reason,
    .decideApproval id backend decision reason ∈ (step (run {} front) next).2 →
    ∃ key answer card since, next = .key key answer ∧ confirms key = true ∧ card.id = id ∧
      card.backend = backend ∧
      (decision = .approve ∧ reason = none ∧ (run {} front).modal = .confirmApprove ∧
          Armed front 'a' card since ∧ Keyless since ∨
        decision = .reject ∧ (run {} front).modal = .confirmReject ∧ Armed front 'd' card since ∧
          reason = some (trim (typedIn since)) ∧ trim (typedIn since) ≠ [])
  locks : .forceLock ∈ (step (run {} front) next).2 →
    ∃ key answer before armedBy since, next = .key key answer ∧ confirms key = true ∧
      (run {} front).modal = .confirmForceLock ∧
      front = before ++ .key ⟨.char 'x', {}⟩ armedBy :: since ∧ Keyless since
  follows : Follows (gateAfter {} front .closed) (run {} front) next
  origin : Origin front (gateAfter {} front .closed)

theorem effects_key {gate : Gate} {next : Step} {effect : Effect} (h : effect ∈ gate.effects next) :
    ∃ key answer, next = .key key answer ∧ confirms key = true ∧
      ((gate = .lock ∧ effect = .forceLock) ∨
        (∃ card, gate = .approve card ∧
          effect = .decideApproval card.id card.backend .approve none) ∨
        ∃ card reason, gate = .reject card reason ∧
          effect = .decideApproval card.id card.backend .reject (some reason)) := by
  cases next with
  | refresh approvals => cases h
  | journal batchId => cases h
  | key key answer =>
    unfold Gate.effects at h
    dsimp only at h
    split at h
    · rename_i hconfirms
      refine ⟨key, answer, rfl, hconfirms, ?_⟩
      cases gate with
      | closed => cases h
      | typing card typed => cases h
      | lock => exact .inl ⟨rfl, List.mem_singleton.1 h⟩
      | approve card => exact .inr (.inl ⟨card, rfl, List.mem_singleton.1 h⟩)
      | reject card reason => exact .inr (.inr ⟨card, reason, rfl, List.mem_singleton.1 h⟩)
    · cases h

/-- A step that follows the gate does what the origin of the gate allows. -/
theorem gated {front : List Step} {next : Step}
    (hshows : Shows (run {} front) (gateAfter {} front .closed))
    (horigin : Origin front (gateAfter {} front .closed))
    (hfollows : Follows (gateAfter {} front .closed) (run {} front) next) : Gated front next := by
  have heffect : ∀ effect ∈ (step (run {} front) next).2, effect.harmless = false →
      effect ∈ (gateAfter {} front .closed).effects next := by
    intro effect hmem hharm
    -- outside a flow everything is harmless, inside it the effects are those of the gate
    by_cases hclosed : gateAfter {} front .closed = .closed
    · have hharmless := hfollows.harmless hclosed effect hmem
      rw [hharm] at hharmless
      cases hharmless
    · rwa [hfollows.only hclosed] at hmem
  refine ⟨?_, ?_, hfollows, horigin⟩
  · intro id backend decision reason hmem
    obtain ⟨key, answer, rfl, hconfirms, hgate⟩ := effects_key (heffect _ hmem rfl)
    rcases hgate with ⟨-, hlock⟩ | ⟨card, hgate, heq⟩ | ⟨card, text, hgate, heq⟩
    · cases hlock
    · rw [hgate] at hshows horigin
      obtain ⟨since, harmed, hkeyless⟩ := horigin
      cases heq
      exact ⟨key, answer, card, since, rfl, hconfirms, rfl, rfl,
        .inl ⟨rfl, rfl, OpenOn.modal hshows, harmed, hkeyless⟩⟩
    · rw [hgate] at hshows horigin
      obtain ⟨since, harmed, rfl, hne⟩ := horigin
      cases heq
      exact ⟨key, answer, card, since, rfl, hconfirms, rfl, rfl,
        .inr ⟨rfl, hshows.1.modal, harmed, rfl, hne⟩⟩
  · intro hmem
    obtain ⟨key, answer, rfl, hconfirms, hgate⟩ := effects_key (heffect _ hmem rfl)
    rcases hgate with ⟨hgate, -⟩ | ⟨card, -, heq⟩ | ⟨card, text, -, heq⟩
    · rw [hgate] at hshows horigin
      obtain ⟨before, armedBy, since, hfront, hkeyless⟩ := horigin
      exact ⟨key, answer, before, armedBy, since, rfl, hconfirms, hshows.1, hfront, hkeyless⟩
    · cases heq
    · cases heq

/-- **A run** shows its gate, and the gate has its origin. -/
theorem run_shows (front : List Step)
    (hdistinct : ∀ next ∈ front, (next.approvals.map (·.id)).Nodup)
    (hplain : ∀ before next behind, front = before ++ next :: behind →
      Unshifted (run {} before) next) :
    Shows (run {} front) (gateAfter {} front .closed) ∧
      Origin front (gateAfter {} front .closed) := by
  induction front using List.reverseRecOn with
  | nil => exact ⟨rfl, trivial⟩
  | append_singleton front next ih =>
    have hbefore : ∀ before other behind, front = before ++ other :: behind →
        Unshifted (run {} before) other := by
      rintro before other behind rfl
      exact hplain before other (behind ++ [next]) (by simp)
    obtain ⟨hshows, horigin⟩ := ih
      (fun other hmem => hdistinct other (List.mem_append_left _ hmem)) hbefore
    have hfollows := follows_step next hshows (hdistinct next (by simp))
      (hplain front next [] rfl)
    rw [run_append, gateAfter_append]
    exact ⟨hfollows.shows, origin_next next horigin hshows⟩

/-- **A decision is confirmed**: by the keys that confirm, in a flow that its own key armed on the
selected card, with that card and the text typed for it; and as long as a flow is open, nothing else
happens. -/
theorem confirmed (steps : List Step)
    (hdistinct : ∀ next ∈ steps, (next.approvals.map (·.id)).Nodup)
    (hplain : ∀ front next behind, steps = front ++ next :: behind →
      Unshifted (run {} front) next) :
    ∀ front next behind, steps = front ++ next :: behind → Gated front next := by
  rintro front next behind rfl
  obtain ⟨hshows, horigin⟩ := run_shows front
    (fun other hmem => hdistinct other (List.mem_append_left _ hmem)) (by
      rintro before other after rfl
      exact hplain before other (after ++ next :: behind) (by simp))
  exact gated hshows horigin (follows_step next hshows (hdistinct next (by simp))
    (hplain front next behind rfl))

/-- A card is rejected with a text, and the decision confirmed. -/
def rejecting (first : KeyEvent) : List Step :=
  [.refresh [⟨.native, "A-1"⟩], .key ⟨.tab, {}⟩ [], .key ⟨.char 'd', {}⟩ [], .key first [],
    .key ⟨.char 'k', {}⟩ [], .key ⟨.enter, {}⟩ [], .refresh [⟨.native, "A-1"⟩]]

def confirming : Step := .key ⟨.char 'y', {}⟩ []

theorem rejecting_distinct (first : KeyEvent) :
    ∀ next ∈ rejecting first ++ [confirming], (next.approvals.map (·.id)).Nodup := by
  intro next hmem
  simp only [rejecting, confirming, List.cons_append, List.nil_append, List.mem_cons,
    List.not_mem_nil, or_false] at hmem
  rcases hmem with rfl | rfl | rfl | rfl | rfl | rfl | rfl | rfl <;> simp [Step.approvals]

theorem confirmed_plain : Gated (rejecting ⟨.char 'o', {}⟩) confirming := by
  refine confirmed _ (rejecting_distinct _) (fun front next behind hsplit => ?_) _ confirming [] rfl
  have hmem : next ∈ rejecting ⟨.char 'o', {}⟩ ++ [confirming] := by
    rw [hsplit]
    simp
  simp only [rejecting, confirming, List.cons_append, List.nil_append, List.mem_cons,
    List.not_mem_nil, or_false] at hmem
  rcases hmem with rfl | rfl | rfl | rfl | rfl | rfl | rfl | rfl
  all_goals first
    | trivial
    | exact fun hshift => absurd hshift (by decide)

/-- The capital letter is missing. -/
theorem confirmed_shifted : ¬ ∀ steps : List Step,
    (∀ next ∈ steps, (next.approvals.map (·.id)).Nodup) →
      ∀ front next behind, steps = front ++ next :: behind → Gated front next := by
  intro h
  have hgated := h _ (rejecting_distinct ⟨.char 'O', shifted⟩) _ confirming [] rfl
  have honly := hgated.follows.only (by decide)
  revert honly
  decide

end Orchestrail.Console
