import Orchestrail.Spec.Readiness

/-!
# One answer to readiness
-/

namespace Orchestrail.Readiness

open ControlPlane

variable {states : StringMap TaskState} {doneIds completed : Finset String}
variable {snapshot : Snapshot} {q : QueueEntry}

/-- The console counts a predecessor as resolved. -/
def Resolved (states : StringMap TaskState) (doneIds : Finset String) (id : String) : Prop :=
  states[id]? = some .done ∨ states[id]? = none ∧ id ∈ doneIds

instance (states : StringMap TaskState) (doneIds : Finset String) (id : String) :
    Decidable (Resolved states doneIds id) :=
  inferInstanceAs (Decidable (_ ∨ _))

/-- What a card says of the predecessor it names. -/
def describe (states : StringMap TaskState) (id : String) : String × Bool × Bool :=
  (id, decide (states[id]? = some .escalated), decide (states[id]? = none))

/-- **The console names the first prerequisite that it does not resolve.** -/
theorem firstUnresolved_find (prerequisites : List String) :
    firstUnresolvedPrerequisite states doneIds prerequisites =
      (prerequisites.find? fun id => decide (¬ Resolved states doneIds id)).map
        (describe states) := by
  -- on the prerequisites: those that are resolved are passed over by both
  induction prerequisites with
  | nil => rfl
  | cons p prerequisites ih =>
    unfold firstUnresolvedPrerequisite
    by_cases hp : Resolved states doneIds p
    · rw [List.find?_cons_of_neg (by simpa using hp), ← ih]
      rcases hp with hdone | ⟨hlive, hdone⟩
      · rw [hdone]
      · rw [hlive]
        exact if_pos hdone
    · rw [List.find?_cons_of_pos (by simpa using hp)]
      unfold Resolved at hp
      show _ = some (p, decide (states[p]? = some .escalated), decide (states[p]? = none))
      generalize states[p]? = live at hp ⊢
      cases live with
      | none => exact if_neg fun hdone => hp (.inr ⟨rfl, hdone⟩)
      | some state =>
        cases state with
        | done => exact absurd (.inl rfl) hp
        | _ => rfl

theorem blockedCard_eq (hstate : q.state = some .notStarted) (hquarantine : q.quarantine = none) :
    blockedCard states doneIds q =
      (q.prerequisites.find? fun id => decide (¬ Resolved states doneIds id)).map fun id =>
        ⟨q.id, q.title, id, decide (states[id]? = some .escalated),
          decide (states[id]? = none)⟩ := by
  unfold blockedCard
  rw [if_pos ⟨hstate, hquarantine⟩, firstUnresolved_find, Option.map_map]
  rfl

theorem ready_iff : ready completed q = true ↔ ∀ id ∈ q.prerequisites, id ∈ completed := by
  unfold ready
  simp

/-- The readiness of a candidate is that of its queue entry. -/
theorem admissionCandidate_ready {descriptors : StringMap Descriptor} {c : AdmissionCandidate}
    (h : admissionCandidate descriptors completed q = some c) : c.ready = ready completed q := by
  unfold admissionCandidate at h
  split at h
  · cases h
  · cases hd : descriptors[q.id]? with
    | none =>
      rw [hd] at h
      cases h
    | some descriptor =>
      rw [hd] at h
      dsimp only at h
      split at h
      · obtain rfl := Option.some.inj h
        rfl
      · cases h

/-! ## Two sources -/

/-- Console and engine answer alike for a queue entry. -/
structure Answers (snapshot : Snapshot) (doneIds completed : Finset String) (q : QueueEntry) :
    Prop where
  listed : (blockedCard (stateById snapshot) doneIds q).isSome ↔ ¬ ready completed q
  admitted : ∀ c, admissionCandidate (descriptorsById snapshot) completed q = some c →
    c.ready = (blockedCard (stateById snapshot) doneIds q).isNone
  named : ∀ card, blockedCard (stateById snapshot) doneIds q = some card →
    card.blockingOn ∉ completed

/-- Every prerequisite is done by its live state, or archived and without one, and some is not in
the archive: the task is done and not archived yet. -/
structure AheadOfArchive (states : StringMap TaskState) (archived : Finset String)
    (prerequisites : List String) : Prop where
  resolved : ∀ id ∈ prerequisites, Resolved states archived id
  missing : ∃ id ∈ prerequisites, id ∉ archived

/-- The first prerequisite that is neither done by its live state, nor archived and without one, is
archived: a queue entry or a descriptor of it is still there in another state. -/
def BehindArchive (states : StringMap TaskState) (archived : Finset String)
    (prerequisites : List String) : Prop :=
  ∃ before id after, prerequisites = before ++ id :: after ∧
    (∀ b ∈ before, Resolved states archived b) ∧ id ∈ archived ∧
    ∃ state, states[id]? = some state ∧ state ≠ .done

theorem not_resolved_archived {archived : Finset String} {id : String} (harchived : id ∈ archived) :
    ¬ Resolved states archived id ↔ ∃ state, states[id]? = some state ∧ state ≠ .done := by
  unfold Resolved
  cases states[id]? <;> simp [harchived]

theorem behindArchive_iff {archived : Finset String} {prerequisites : List String} :
    BehindArchive states archived prerequisites ↔
      ∃ id, prerequisites.find? (fun id => decide (¬ Resolved states archived id)) = some id ∧
        id ∈ archived := by
  constructor
  · rintro ⟨before, id, after, rfl, hbefore, harchived, hlive⟩
    refine ⟨id, List.find?_eq_some_iff_append.2 ⟨?_, before, after, rfl, fun b hb => ?_⟩, harchived⟩
    · exact decide_eq_true ((not_resolved_archived harchived).2 hlive)
    · simp [hbefore b hb]
  · rintro ⟨id, hfind, harchived⟩
    obtain ⟨hid, before, after, heq, hbefore⟩ := List.find?_eq_some_iff_append.1 hfind
    refine ⟨before, id, after, heq, fun b hb => ?_, harchived,
      (not_resolved_archived harchived).1 (of_decide_eq_true hid)⟩
    simpa using hbefore b hb

/-- The console reads the archive the engine reads. -/
theorem doneTaskIds_eq {alphanumeric : Char → Bool} {s : ControlFiles}
    (h : tryCompletedIds alphanumeric s = .ok completed) :
    doneTaskIds alphanumeric s = completed := by
  unfold tryCompletedIds at h
  unfold doneTaskIds
  cases hread : readOptionalText s.donePath s.done with
  | error error =>
    rw [hread] at h
    cases h
  | ok text =>
    rw [hread] at h
    cases text with
    | none => exact Except.ok.inj h
    | some text => exact Except.ok.inj h

theorem answers_iff (hstate : q.state = some .notStarted) (hquarantine : q.quarantine = none) :
    Answers snapshot completed completed q ↔
      ¬ AheadOfArchive (stateById snapshot) completed q.prerequisites ∧
      ¬ BehindArchive (stateById snapshot) completed q.prerequisites := by
  rw [behindArchive_iff]
  have hcard : blockedCard (stateById snapshot) completed q = _ :=
    blockedCard_eq hstate hquarantine
  -- without an unresolved prerequisite the console lists nothing, else it names the first one
  cases hfind : q.prerequisites.find? fun id =>
      decide (¬ Resolved (stateById snapshot) completed id) with
  | none =>
    rw [hfind] at hcard
    have hall : ∀ id ∈ q.prerequisites, Resolved (stateById snapshot) completed id := by
      simpa using hfind
    constructor
    · intro hanswers
      refine ⟨fun hahead => ?_, by simp⟩
      have hready : ready completed q = true := by
        by_contra hnot
        have := hanswers.listed.2 hnot
        rw [hcard] at this
        cases this
      obtain ⟨id, hid, hmissing⟩ := hahead.missing
      exact hmissing (ready_iff.1 hready id hid)
    · rintro ⟨hahead, -⟩
      have hready : ready completed q = true := ready_iff.2 fun id hid => by
        by_contra hmissing
        exact hahead ⟨hall, id, hid, hmissing⟩
      refine ⟨?_, fun c hc => ?_, fun card hc => ?_⟩
      · rw [hcard, hready]
        simp
      · rw [admissionCandidate_ready hc, hready, hcard]
        rfl
      · rw [hcard] at hc
        cases hc
  | some id =>
    rw [hfind] at hcard
    have hmem : id ∈ q.prerequisites := List.mem_of_find?_eq_some hfind
    have hid : ¬ Resolved (stateById snapshot) completed id :=
      by simpa using List.find?_some hfind
    constructor
    · intro hanswers
      refine ⟨fun hahead => hid (hahead.resolved id hmem), ?_⟩
      rintro ⟨id', hid', harchived⟩
      obtain rfl := Option.some.inj hid'
      exact hanswers.named _ hcard harchived
    · rintro ⟨-, hbehind⟩
      have hmissing : id ∉ completed := fun harchived => hbehind ⟨id, rfl, harchived⟩
      have hready : ready completed q = false := by
        rw [← Bool.not_eq_true, ready_iff]
        exact fun hall => hmissing (hall id hmem)
      refine ⟨?_, fun c hc => ?_, fun card hc => ?_⟩
      · rw [hcard, hready]
        simp
      · rw [admissionCandidate_ready hc, hready, hcard]
        rfl
      · rw [hcard] at hc
        obtain rfl := Option.some.inj hc
        exact hmissing

/-- **Console and engine answer readiness alike** for a queue entry, and the card names a task that
the engine waits for, exactly when the live states of its prerequisites run neither ahead of the
archive nor behind it. -/
theorem readiness {alphanumeric : Char → Bool} {s : ControlFiles}
    (h : tryCompletedIds alphanumeric s = .ok completed)
    (hstate : q.state = some .notStarted) (hquarantine : q.quarantine = none) :
    Answers snapshot (doneTaskIds alphanumeric s) completed q ↔
      ¬ AheadOfArchive (stateById snapshot) completed q.prerequisites ∧
      ¬ BehindArchive (stateById snapshot) completed q.prerequisites := by
  rw [doneTaskIds_eq h]
  exact answers_iff hstate hquarantine

/-! ## Two windows -/

/-- A task that waits for another one. -/
def waiting : QueueEntry := ⟨"T-2", "second", some .notStarted, none, none, none, ["T-1"], .current⟩

/-- The task it waits for, in a state. -/
def first (state : TaskState) : QueueEntry :=
  ⟨"T-1", "first", some state, none, none, none, [], .current⟩

/-- A work directory whose archive has these lines. -/
def archiveOf (done : Option String) : ControlFiles :=
  ⟨".work", none, done.map String.toList, fun _ => none⟩

theorem readiness_archived :
    tryCompletedIds Char.isAlphanum (archiveOf (some "## [T-1] first")) = .ok {"T-1"} ∧
    Answers ⟨[waiting], []⟩
      (doneTaskIds Char.isAlphanum (archiveOf (some "## [T-1] first"))) {"T-1"} waiting :=
  have hread : tryCompletedIds Char.isAlphanum (archiveOf (some "## [T-1] first")) =
      .ok {"T-1"} := by
    decide +kernel
  have hfind : waiting.prerequisites.find? (fun id =>
      decide (¬ Resolved (stateById ⟨[waiting], []⟩) {"T-1"} id)) = none := by
    decide +kernel
  ⟨hread, (readiness hread rfl rfl).2 ⟨fun hahead => by
      obtain ⟨id, hid, hmissing⟩ := hahead.missing
      obtain rfl := List.mem_singleton.1 hid
      exact hmissing (Finset.mem_singleton_self _), fun hbehind => by
      obtain ⟨id, hid, -⟩ := behindArchive_iff.1 hbehind
      rw [hfind] at hid
      cases hid⟩⟩

/-- The task is done and not archived yet: the console does not list the entry that waits for it,
and the engine waits. Or the task is archived and its queue entry is still there: the console names
it, and the engine admits the entry. -/
theorem readiness_windows :
    (tryCompletedIds Char.isAlphanum (archiveOf none) = .ok ∅ ∧
      (build ⟨[first .done, waiting], []⟩ false none
        (doneTaskIds Char.isAlphanum (archiveOf none))).blocked = [] ∧
      ready ∅ waiting = false) ∧
    (tryCompletedIds Char.isAlphanum (archiveOf (some "## [T-1] first")) = .ok {"T-1"} ∧
      (build ⟨[first .working, waiting], []⟩ false none
        (doneTaskIds Char.isAlphanum (archiveOf (some "## [T-1] first")))).blocked =
          [⟨"T-2", "second", "T-1", false, false⟩] ∧
      ready {"T-1"} waiting = true) := by
  decide +kernel

end Orchestrail.Readiness
