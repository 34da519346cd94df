import Orchestrail.Spec.State

/-!
# Wave admission

`resolvers/admission.rs` and the admission gate of `resolvers/budget.rs`: conflict domains as
conservative path matchers, the planner's choice of a wave, and the size, age and budget circuit
breakers.
-/

namespace Orchestrail

open Text

/-- The non-empty glob tokens of a conflict-domain specification (`domain_tokens`). -/
def domainTokens (spec : String) : List (List Char) :=
  ((pieces (fun ch => ch = ',' ∨ ch = ' ' ∨ ch = '\t' ∨ ch = '\n' ∨ ch = '\r') spec.toList).map
    trim).filter (!·.isEmpty)

/-- One glob reduced to a conservative path matcher. -/
inductive Matcher where
  | exact (path : List Char)
  | front (path : List Char)
  deriving DecidableEq

def matcher (pattern : List Char) : Matcher :=
  let p := trim pattern
  let literal := p.takeWhile fun ch => !(ch == '*' || ch == '?' || ch == '[')
  if literal.length < p.length then .front literal else .exact p

/-- `ancestor` names `path` itself or a path component ancestor of it. -/
def isPathAncestorOrSame (ancestor path : List Char) : Bool :=
  path == ancestor ||
    match stripFront ancestor path with
    | some suffix => suffix.head? == some '/'
    | none => false

def matchersOverlap : Matcher → Matcher → Bool
  | .exact x, .exact y => isPathAncestorOrSame x y || isPathAncestorOrSame y x
  | .exact x, .front p => p.isPrefixOf x || isPathAncestorOrSame x p
  | .front p, .exact x => p.isPrefixOf x || isPathAncestorOrSame x p
  | .front x, .front y => y.isPrefixOf x || x.isPrefixOf y

/-- The set of path globs a task is expected to touch; an unknown one meets every domain. -/
structure Domain where
  matchers : List Matcher
  unknown : Bool
  deriving DecidableEq

def Domain.parse (spec : String) : Domain := ⟨(domainTokens spec).map matcher, false⟩

def Domain.intersects (self other : Domain) : Bool :=
  self.unknown || other.unknown ||
    self.matchers.any fun a => other.matchers.any fun b => matchersOverlap a b

structure ActiveTask where
  domain : Domain
  class_ : ActiveClass
  deriving DecidableEq

/-- One not-started queue candidate under consideration. -/
structure Candidate where
  id : String
  ready : Bool
  domain : Domain
  delivery : DeliveryTarget
  deriving DecidableEq

def Candidate.admissibleToCurrentLane (c : Candidate) : Bool :=
  c.ready && c.delivery == .current

/-- Why a round took nothing. -/
inductive EmptyReason where
  | queueEmpty | onlyConflictsWithActive | onlyConflictsWithReady
  deriving DecidableEq, Repr

def EmptyReason.toCloseReason : EmptyReason → Option CloseReason
  | .queueEmpty => some .queueEmpty
  | .onlyConflictsWithReady => some .onlyConflictsWithReady
  | .onlyConflictsWithActive => none

inductive AdmissionOutcome where
  | admitted (ids : List String)
  | empty (reason : EmptyReason)
  deriving DecidableEq

/-- The walk of `plan_admission` from the head of the queue: the candidates taken so far in order,
with their domains. -/
def takeWave (active : List ActiveTask) (capacity : Nat) :
    List Candidate → List String → List Domain → List String
  | [], admitted, _ => admitted
  | c :: cs, admitted, domains =>
    if capacity ≤ admitted.length then admitted
    else if !c.ready || c.delivery == .nextMajor || domains.any (·.intersects c.domain) ||
        active.any (·.domain.intersects c.domain) then
      takeWave active capacity cs admitted domains
    else takeWave active capacity cs (admitted ++ [c.id]) (domains ++ [c.domain])

/-- Classify why a round took nothing. -/
def emptyReason (candidates : List Candidate) (active : List ActiveTask) : EmptyReason :=
  if candidates.isEmpty then .queueEmpty
  else
    let hits (cls : ActiveClass) (c : Candidate) : Bool :=
      (active.filter (·.class_ == cls)).any (·.domain.intersects c.domain)
    let lane := candidates.filter (·.admissibleToCurrentLane)
    if lane.any (fun c => hits .active c && !hits .terminal c) then .onlyConflictsWithActive
    else if lane.any (hits .terminal) then .onlyConflictsWithReady
    else .queueEmpty

def planAdmission (candidates : List Candidate) (active : List ActiveTask) (capacity : Nat) :
    AdmissionOutcome :=
  let admitted := takeWave active capacity candidates [] []
  if admitted.isEmpty then .empty (emptyReason candidates active) else .admitted admitted

structure CohortThresholds where
  size : Nat
  maxAgeMinutes : Nat
  budgetSec : Option Nat

structure CohortCounters where
  admittedTotal : Nat
  ageMinutes : Nat
  elapsedSec : Nat

/-- The gate decision: the reason admission closes with, if a circuit breaker tripped
(`AdmissionGate::Close`), else `none` (`AdmissionGate::Continue`). -/
def admissionGate (counters : CohortCounters) (thresholds : CohortThresholds) : Option CloseReason :=
  if thresholds.size ≤ counters.admittedTotal then some .cohortSize
  else if thresholds.maxAgeMinutes ≤ counters.ageMinutes then some .cohortMaxAge
  else match thresholds.budgetSec with
    | some budget => if budget ≤ counters.elapsedSec then some .cohortMaxAge else none
    | none => none

/-- **The wave fits the capacity**, whatever was taken before. -/
theorem length_takeWave {active : List ActiveTask} {capacity : Nat} :
    ∀ {cs : List Candidate} {admitted : List String} {domains : List Domain},
      admitted.length ≤ capacity → (takeWave active capacity cs admitted domains).length ≤ capacity
  | [], _, _, h => h
  | c :: cs, admitted, domains, h => by
    simp only [takeWave]
    split
    · exact h
    · rename_i hlt
      split
      · exact length_takeWave h
      · exact length_takeWave (by simp; omega)

/-- The wave is the part already taken followed by some of the remaining candidates, in order. -/
theorem takeWave_sublist (active : List ActiveTask) (capacity : Nat) :
    ∀ (cs : List Candidate) (admitted : List String) (domains : List Domain),
      ∃ taken, takeWave active capacity cs admitted domains = admitted ++ taken ∧
        taken.Sublist (cs.map (·.id))
  | [], _, _ => ⟨[], by simp [takeWave]⟩
  | c :: cs, admitted, domains => by
    simp only [takeWave]
    split
    · exact ⟨[], by simp⟩
    · split
      · obtain ⟨taken, h1, h2⟩ := takeWave_sublist active capacity cs admitted domains
        exact ⟨taken, h1, by simpa using h2.cons c.id⟩
      · obtain ⟨taken, h1, h2⟩ :=
          takeWave_sublist active capacity cs (admitted ++ [c.id]) (domains ++ [c.domain])
        exact ⟨c.id :: taken, by simpa using h1, by simpa using h2.cons_cons c.id⟩

theorem matchersOverlap_comm (a b : Matcher) : matchersOverlap a b = matchersOverlap b a := by
  cases a <;> cases b <;> simp only [matchersOverlap, Bool.or_comm]

/-- Two domains meet or do not, whichever is asked first. -/
theorem Domain.intersects_comm (a b : Domain) : a.intersects b = b.intersects a := by
  have hany : (a.matchers.any fun x => b.matchers.any fun y => matchersOverlap x y) =
      b.matchers.any fun y => a.matchers.any fun x => matchersOverlap y x := by
    rw [Bool.eq_iff_iff]
    simp only [List.any_eq_true]
    constructor
    · rintro ⟨x, hx, y, hy, h⟩; exact ⟨y, hy, x, hx, matchersOverlap_comm x y ▸ h⟩
    · rintro ⟨y, hy, x, hx, h⟩; exact ⟨x, hx, y, hy, matchersOverlap_comm x y ▸ h⟩
  unfold Domain.intersects
  rw [hany, Bool.or_comm a.unknown]

/-- **The candidates of a wave keep clear of each other**, of the domains taken before and of the
tasks that block. -/
theorem takeWave_clear (active : List ActiveTask) (capacity : Nat) :
    ∀ (cs : List Candidate) (admitted : List String) (domains : List Domain),
      ∃ taken : List Candidate,
        takeWave active capacity cs admitted domains = admitted ++ taken.map (·.id) ∧
        taken.Sublist cs ∧
        (∀ c ∈ taken, (∀ d ∈ domains, d.intersects c.domain = false) ∧
          ∀ a ∈ active, a.domain.intersects c.domain = false) ∧
        taken.Pairwise fun c d => c.domain.intersects d.domain = false
  | [], admitted, _ => ⟨[], by simp [takeWave], .slnil, by simp, .nil⟩
  | c :: cs, admitted, domains => by
    simp only [takeWave]
    split
    · exact ⟨[], by simp, List.nil_sublist _, by simp, .nil⟩
    split
    · obtain ⟨taken, h1, h2, h3, h4⟩ := takeWave_clear active capacity cs admitted domains
      exact ⟨taken, h1, h2.cons c, h3, h4⟩
    · rename_i hclear
      simp only [Bool.or_eq_true, not_or, Bool.not_eq_true, List.any_eq_false] at hclear
      obtain ⟨⟨-, hdomains⟩, hactive⟩ := hclear
      obtain ⟨taken, h1, h2, h3, h4⟩ :=
        takeWave_clear active capacity cs (admitted ++ [c.id]) (domains ++ [c.domain])
      refine ⟨c :: taken, by simpa using h1, h2.cons_cons c, ?_, ?_⟩
      · intro e he
        rcases List.mem_cons.1 he with rfl | he
        · exact ⟨hdomains, hactive⟩
        · exact ⟨fun d hd => (h3 e he).1 d (List.mem_append_left _ hd), (h3 e he).2⟩
      · exact List.pairwise_cons.2 ⟨fun e he => (h3 e he).1 c.domain (by simp), h4⟩

/-- **A planned wave is an in-order part of the candidates that fits the capacity.** -/
theorem planAdmission_admitted {candidates : List Candidate} {active : List ActiveTask}
    {capacity : Nat} {ids : List String} (h : planAdmission candidates active capacity = .admitted ids) :
    ids.Sublist (candidates.map (·.id)) ∧ ids.length ≤ capacity ∧ ids ≠ [] := by
  simp only [planAdmission] at h
  split at h
  · exact absurd h (by simp)
  · rename_i hne
    obtain rfl := AdmissionOutcome.admitted.inj h
    obtain ⟨taken, h1, h2⟩ := takeWave_sublist active capacity candidates [] []
    exact ⟨by simpa [h1] using h2, length_takeWave (by simp), by simpa using hne⟩

end Orchestrail
