import Orchestrail.Spec.Admission
import Mathlib.Data.List.Induction

/-!
# The greedy packing of a wave

The planner goes through the queue from its head and takes what fits. Each candidate is marked with
whether it was taken (`marks`), so that what was there before it can be spoken of.
-/

namespace Orchestrail

/-- The domains of the tasks of one class that a candidate meets. -/
def Hits (active : List ActiveTask) (cls : ActiveClass) (c : Candidate) : Prop :=
  ∃ a ∈ active, a.class_ = cls ∧ a.domain.intersects c.domain = true

/-- A candidate keeps clear of the active tasks and of those taken before it. -/
structure Clear (active : List ActiveTask) (before : List Candidate) (c : Candidate) : Prop where
  active : ∀ a ∈ active, a.domain.intersects c.domain = false
  taken : ∀ d ∈ before, d.domain.intersects c.domain = false

/-- What was taken of the marked candidates. -/
def takenOf (marked : List (Candidate × Bool)) : List Candidate := (marked.filter (·.2)).map (·.1)

/-- Head-first greedy packing. -/
structure Packed (active : List ActiveTask) (capacity : Nat) (candidates : List Candidate)
    (marked : List (Candidate × Bool)) : Prop where
  all : marked.map (·.1) = candidates
  taken : ∀ before c after, marked = before ++ (c, true) :: after →
    c.admissibleToCurrentLane = true ∧ (takenOf before).length < capacity ∧
      Clear active (takenOf before) c
  passed : ∀ before c after, marked = before ++ (c, false) :: after →
    c.admissibleToCurrentLane = true →
      capacity ≤ (takenOf before).length ∨ ¬Clear active (takenOf before) c

variable {active : List ActiveTask} {capacity : Nat}

/-- The walk takes the candidate. -/
def takes (active : List ActiveTask) (capacity : Nat) (before : List Candidate) (c : Candidate) :
    Bool :=
  decide (before.length < capacity) && c.admissibleToCurrentLane &&
    !before.any (·.domain.intersects c.domain) && !active.any (·.domain.intersects c.domain)

/-- The candidates behind those in `before`, marked. -/
def marks (active : List ActiveTask) (capacity : Nat) :
    List Candidate → List Candidate → List (Candidate × Bool)
  | _, [] => []
  | before, c :: cs =>
    if takes active capacity before c then (c, true) :: marks active capacity (before ++ [c]) cs
    else (c, false) :: marks active capacity before cs

theorem takes_iff {before : List Candidate} {c : Candidate} :
    takes active capacity before c = true ↔
      c.admissibleToCurrentLane = true ∧ before.length < capacity ∧ Clear active before c := by
  unfold takes
  simp only [Bool.and_eq_true, decide_eq_true_eq, Bool.not_eq_true', List.any_eq_false,
    Bool.not_eq_true]
  constructor
  · rintro ⟨⟨⟨hroom, hlane⟩, htaken⟩, hactive⟩
    exact ⟨hlane, hroom, hactive, htaken⟩
  · rintro ⟨hlane, hroom, hclear⟩
    exact ⟨⟨⟨hroom, hlane⟩, hclear.taken⟩, hclear.active⟩

@[simp] theorem takenOf_taken (c : Candidate) (marked : List (Candidate × Bool)) :
    takenOf ((c, true) :: marked) = c :: takenOf marked := rfl

@[simp] theorem takenOf_passed (c : Candidate) (marked : List (Candidate × Bool)) :
    takenOf ((c, false) :: marked) = takenOf marked := rfl

theorem marks_all (before candidates : List Candidate) :
    (marks active capacity before candidates).map (·.1) = candidates := by
  induction candidates generalizing before with
  | nil => rfl
  | cons c cs ih =>
    unfold marks
    split
    · rw [List.map_cons, ih]
    · rw [List.map_cons, ih]

/-- Each mark says what the walk decided there. -/
theorem marks_split {taken candidates : List Candidate} {before after : List (Candidate × Bool)}
    {c : Candidate} {b : Bool}
    (h : marks active capacity taken candidates = before ++ (c, b) :: after) :
    takes active capacity (taken ++ takenOf before) c = b := by
  induction candidates generalizing taken before with
  | nil =>
    have := congrArg List.length h
    simp [marks] at this
  | cons d ds ih =>
    unfold marks at h
    cases before with
    | nil =>
      rw [show taken ++ takenOf [] = taken from List.append_nil _]
      split at h
      · rename_i htakes
        obtain ⟨hhead, -⟩ := List.cons.inj h
        obtain ⟨rfl, rfl⟩ := Prod.mk.inj hhead
        exact htakes
      · rename_i htakes
        obtain ⟨hhead, -⟩ := List.cons.inj h
        obtain ⟨rfl, rfl⟩ := Prod.mk.inj hhead
        exact Bool.eq_false_iff.2 htakes
    | cons first rest =>
      split at h
      · obtain ⟨rfl, htail⟩ := List.cons.inj h
        rw [takenOf_taken, ← List.singleton_append, ← List.append_assoc]
        exact ih htail
      · obtain ⟨rfl, htail⟩ := List.cons.inj h
        rw [takenOf_passed]
        exact ih htail

theorem marks_packed (candidates : List Candidate) :
    Packed active capacity candidates (marks active capacity [] candidates) := by
  refine ⟨marks_all [] candidates, ?_, ?_⟩
  · intro before c after h
    exact takes_iff.1 (marks_split h)
  · intro before c after h hlane
    have hnot := marks_split h
    rw [List.nil_append] at hnot
    by_contra hboth
    rw [not_or, Nat.not_le, not_not] at hboth
    rw [takes_iff.2 ⟨hlane, hboth⟩] at hnot
    cases hnot

/-! ## What the packing comes to -/

/-- What is taken is clear of what was taken before it. -/
theorem Packed.pairwise {candidates : List Candidate} {marked : List (Candidate × Bool)}
    (h : Packed active capacity candidates marked) :
    (takenOf marked).Pairwise fun c d => c.domain.intersects d.domain = false := by
  suffices hs : ∀ marked', (∃ rest, marked = marked' ++ rest) →
      (takenOf marked').Pairwise fun c d => c.domain.intersects d.domain = false from
    hs marked ⟨[], (List.append_nil _).symm⟩
  intro marked'
  induction marked' using List.reverseRecOn with
  | nil => exact fun _ => .nil
  | append_singleton marked' m ih =>
    rintro ⟨rest, hsplit⟩
    rw [List.append_assoc] at hsplit
    obtain ⟨c, b⟩ := m
    have hback : takenOf (marked' ++ [(c, b)]) = takenOf marked' ++ takenOf [(c, b)] := by
      simp [takenOf]
    rw [hback, List.pairwise_append]
    refine ⟨ih ⟨_, hsplit⟩, ?_, ?_⟩
    · cases b with
      | true => exact List.pairwise_singleton _ _
      | false => exact .nil
    · intro d hd e he
      cases b with
      | true =>
        obtain rfl := List.mem_singleton.1 he
        exact (h.taken _ _ _ hsplit).2.2.taken d hd
      | false => cases he

theorem Packed.length_le {candidates : List Candidate} {marked : List (Candidate × Bool)}
    (h : Packed active capacity candidates marked) : (takenOf marked).length ≤ capacity := by
  suffices hs : ∀ marked', (∃ rest, marked = marked' ++ rest) →
      (takenOf marked').length ≤ capacity from hs marked ⟨[], (List.append_nil _).symm⟩
  intro marked'
  induction marked' using List.reverseRecOn with
  | nil => exact fun _ => Nat.zero_le _
  | append_singleton marked' m ih =>
    rintro ⟨rest, hsplit⟩
    rw [List.append_assoc] at hsplit
    obtain ⟨c, b⟩ := m
    have hback : takenOf (marked' ++ [(c, b)]) = takenOf marked' ++ takenOf [(c, b)] := by
      simp [takenOf]
    rw [hback, List.length_append]
    cases b with
    | true => exact (h.taken _ _ _ hsplit).2.1
    | false => exact ih ⟨_, hsplit⟩

/-- When nothing is taken although there is room, every admissible candidate meets an active
task. -/
theorem Packed.blocked {candidates : List Candidate} {marked : List (Candidate × Bool)}
    (h : Packed active capacity candidates marked) (hcap : 1 ≤ capacity)
    (hnone : takenOf marked = []) {c : Candidate} (hc : c ∈ candidates)
    (hlane : c.admissibleToCurrentLane = true) : ∃ cls, Hits active cls c := by
  rw [← h.all] at hc
  obtain ⟨⟨d, b⟩, hmem, rfl⟩ := List.mem_map.1 hc
  obtain ⟨before, after, hsplit⟩ := List.append_of_mem hmem
  have hbefore : takenOf before = [] := by
    rw [hsplit] at hnone
    simp only [takenOf, List.filter_append, List.map_append, List.append_eq_nil_iff] at hnone
    exact hnone.1
  cases b with
  | true =>
    rw [hsplit] at hnone
    simp [takenOf] at hnone
  | false =>
    rcases h.passed _ _ _ hsplit hlane with hroom | hclear
    · rw [hbefore] at hroom
      exact absurd hroom (Nat.not_le.2 hcap)
    · by_contra hno
      refine hclear ⟨fun a ha => ?_, fun e he => ?_⟩
      · refine Bool.eq_false_iff.2 fun hmeet => hno ⟨a.class_, a, ha, rfl, hmeet⟩
      · rw [hbefore] at he
        cases he

/-! ## The planner -/

/-- The walk of the source is the marking. -/
theorem takeWave_marks (taken candidates : List Candidate) :
    takeWave active capacity candidates (taken.map (·.id)) (taken.map (·.domain)) =
      (taken ++ takenOf (marks active capacity taken candidates)).map (·.id) := by
  induction candidates generalizing taken with
  | nil => simp [takeWave, marks, takenOf]
  | cons c cs ih =>
    unfold takeWave marks
    rw [List.length_map]
    by_cases hroom : capacity ≤ taken.length
    · -- nothing more is taken behind a full wave
      rw [if_pos hroom]
      have hfull : ∀ cs, takenOf (marks active capacity taken cs) = [] := by
        intro cs
        induction cs with
        | nil => rfl
        | cons d ds ihds =>
          unfold marks
          rw [if_neg fun h => absurd (takes_iff.1 h).2.1 (Nat.not_lt.2 hroom)]
          exact ihds
      rw [if_neg fun h => absurd (takes_iff.1 h).2.1 (Nat.not_lt.2 hroom), takenOf_passed, hfull,
        List.append_nil]
    · rw [if_neg hroom]
      have hdomains : ((taken.map (·.domain)).any fun d => d.intersects c.domain) =
          taken.any fun d => d.domain.intersects c.domain := by
        rw [List.any_map]
        rfl
      have hskip : (!c.ready || c.delivery == .nextMajor ||
          (taken.map (·.domain)).any (·.intersects c.domain) ||
          active.any (·.domain.intersects c.domain)) = !takes active capacity taken c := by
        have hlane : (!c.ready || c.delivery == .nextMajor) = !c.admissibleToCurrentLane := by
          unfold Candidate.admissibleToCurrentLane
          cases c.ready <;> cases c.delivery <;> rfl
        unfold takes
        rw [hlane, hdomains, decide_eq_true (Nat.not_le.1 hroom)]
        simp only [Bool.true_and, Bool.not_and, Bool.not_not]
      rw [hskip]
      cases htakes : takes active capacity taken c with
      | true =>
        rw [if_neg (by simp), if_pos rfl, takenOf_taken]
        have := ih (taken ++ [c])
        rw [List.map_append, List.map_append, List.append_assoc, List.singleton_append] at this
        exact this
      | false =>
        rw [if_pos (by simp), if_neg (by simp), takenOf_passed]
        exact ih taken

theorem planAdmission_marks (candidates : List Candidate) :
    planAdmission candidates active capacity =
      if (takenOf (marks active capacity [] candidates)).isEmpty then
        .empty (emptyReason candidates active)
      else .admitted ((takenOf (marks active capacity [] candidates)).map (·.id)) := by
  have hwave := @takeWave_marks active capacity [] candidates
  rw [List.nil_append] at hwave
  unfold planAdmission
  simp only [List.map_nil] at hwave
  rw [hwave]
  simp only [List.isEmpty_map]

/-- Only admissible candidates matter to the packing. -/
theorem takenOf_marks_filter (taken candidates : List Candidate) :
    takenOf (marks active capacity taken (candidates.filter (·.admissibleToCurrentLane))) =
      takenOf (marks active capacity taken candidates) := by
  induction candidates generalizing taken with
  | nil => rfl
  | cons c cs ih =>
    by_cases hlane : c.admissibleToCurrentLane = true
    · rw [List.filter_cons_of_pos hlane]
      unfold marks
      split
      · rw [takenOf_taken, takenOf_taken, ih]
      · rw [takenOf_passed, takenOf_passed, ih]
    · rw [List.filter_cons_of_neg hlane, ih]
      conv_rhs => unfold marks
      rw [if_neg fun h => hlane (takes_iff.1 h).1, takenOf_passed]

/-- And to the reason. -/
theorem emptyReason_filter (candidates : List Candidate) :
    emptyReason (candidates.filter (·.admissibleToCurrentLane)) active =
      emptyReason candidates active := by
  unfold emptyReason
  simp only [List.filter_filter, Bool.and_self]
  cases hlane : candidates.filter (·.admissibleToCurrentLane) with
  | nil => simp
  | cons c cs =>
    have hsome : candidates.isEmpty = false := by
      cases candidates with
      | nil => cases hlane
      | cons => rfl
    rw [hsome]
    rfl

theorem planAdmission_filter (candidates : List Candidate) :
    planAdmission (candidates.filter (·.admissibleToCurrentLane)) active capacity =
      planAdmission candidates active capacity := by
  rw [planAdmission_marks, planAdmission_marks, takenOf_marks_filter, emptyReason_filter]

/-! ## The reason of an empty plan -/

theorem hits_iff {cls : ActiveClass} {c : Candidate} :
    ((active.filter (·.class_ == cls)).any (·.domain.intersects c.domain)) = true ↔
      Hits active cls c := by
  simp only [List.any_eq_true, List.mem_filter, beq_iff_eq]
  constructor
  · rintro ⟨a, ⟨ha, hcls⟩, hmeet⟩
    exact ⟨a, ha, hcls, hmeet⟩
  · rintro ⟨a, ha, hcls, hmeet⟩
    exact ⟨a, ⟨ha, hcls⟩, hmeet⟩

/-- Some admissible candidate meets an active task of the first class and none of the second. -/
def OnlyActive (active : List ActiveTask) (candidates : List Candidate) : Prop :=
  ∃ c ∈ candidates, c.admissibleToCurrentLane = true ∧ Hits active .active c ∧
    ¬Hits active .terminal c

/-- Some admissible candidate meets a task that waits for the end of the cohort. -/
def SomeTerminal (active : List ActiveTask) (candidates : List Candidate) : Prop :=
  ∃ c ∈ candidates, c.admissibleToCurrentLane = true ∧ Hits active .terminal c

/-- The cases of the classification. -/
theorem emptyReason_cases (candidates : List Candidate) :
    (emptyReason candidates active = .onlyConflictsWithActive ∧ OnlyActive active candidates) ∨
      (emptyReason candidates active = .onlyConflictsWithReady ∧ ¬OnlyActive active candidates ∧
        SomeTerminal active candidates) ∨
      (emptyReason candidates active = .queueEmpty ∧ ¬OnlyActive active candidates ∧
        ¬SomeTerminal active candidates) := by
  have honly : ((candidates.filter (·.admissibleToCurrentLane)).any fun c =>
      (active.filter (·.class_ == .active)).any (·.domain.intersects c.domain) &&
        !(active.filter (·.class_ == .terminal)).any (·.domain.intersects c.domain)) = true ↔
      OnlyActive active candidates := by
    simp only [List.any_eq_true (p := fun c : Candidate => _ && _), List.mem_filter,
      Bool.and_eq_true, hits_iff, Bool.not_eq_true', ← Bool.not_eq_true]
    exact ⟨fun ⟨c, ⟨hc, hlane⟩, h⟩ => ⟨c, hc, hlane, h⟩, fun ⟨c, hc, hlane, h⟩ => ⟨c, ⟨hc, hlane⟩, h⟩⟩
  have hterminal : ((candidates.filter (·.admissibleToCurrentLane)).any fun c =>
      (active.filter (·.class_ == .terminal)).any (·.domain.intersects c.domain)) = true ↔
      SomeTerminal active candidates := by
    rw [List.any_eq_true]
    simp only [List.mem_filter, hits_iff]
    exact ⟨fun ⟨c, ⟨hc, hlane⟩, h⟩ => ⟨c, hc, hlane, h⟩, fun ⟨c, hc, hlane, h⟩ => ⟨c, ⟨hc, hlane⟩, h⟩⟩
  unfold emptyReason
  by_cases hnone : candidates.isEmpty = true
  · obtain rfl := List.isEmpty_iff.1 hnone
    refine .inr (.inr ⟨rfl, ?_, ?_⟩)
    · rintro ⟨c, hc, -⟩
      cases hc
    · rintro ⟨c, hc, -⟩
      cases hc
  rw [if_neg hnone]
  simp only
  split
  · rename_i h
    exact .inl ⟨rfl, honly.1 h⟩
  · rename_i h
    rw [honly] at h
    split
    · rename_i h'
      exact .inr (.inl ⟨rfl, h, hterminal.1 h'⟩)
    · rename_i h'
      exact .inr (.inr ⟨rfl, h, fun hs => h' (hterminal.2 hs)⟩)

/-- Why an empty plan is empty. -/
structure Explained (active : List ActiveTask) (candidates : List Candidate)
    (reason : EmptyReason) : Prop where
  onActive : reason = .onlyConflictsWithActive ↔ OnlyActive active candidates
  onReady : reason = .onlyConflictsWithReady ↔
    ¬OnlyActive active candidates ∧ SomeTerminal active candidates
  onQueue : reason = .queueEmpty ↔ ∀ c ∈ candidates, c.admissibleToCurrentLane = false

theorem Packed.explained {candidates : List Candidate} {marked : List (Candidate × Bool)}
    (h : Packed active capacity candidates marked) (hcap : 1 ≤ capacity)
    (hnone : takenOf marked = []) : Explained active candidates (emptyReason candidates active) := by
  -- an admissible candidate meets an active task, of the one class or of the other
  have hlane : ∀ c ∈ candidates, c.admissibleToCurrentLane = true →
      OnlyActive active candidates ∨ SomeTerminal active candidates := by
    intro c hc hlane
    by_cases hterminal : Hits active .terminal c
    · exact .inr ⟨c, hc, hlane, hterminal⟩
    · obtain ⟨cls, hits⟩ := h.blocked hcap hnone hc hlane
      cases cls with
      | active => exact .inl ⟨c, hc, hlane, hits, hterminal⟩
      | terminal => exact absurd hits hterminal
  have hsome : OnlyActive active candidates ∨ SomeTerminal active candidates →
      ¬∀ c ∈ candidates, c.admissibleToCurrentLane = false := by
    intro hcase hall
    rcases hcase with ⟨c, hc, hl, -⟩ | ⟨c, hc, hl, -⟩
    · rw [hall c hc] at hl
      cases hl
    · rw [hall c hc] at hl
      cases hl
  rcases @emptyReason_cases active candidates with
    ⟨hr, ha⟩ | ⟨hr, hna, ht⟩ | ⟨hr, hna, hnt⟩
  · rw [hr]
    exact ⟨by simp [ha], by simp [ha], by simpa using hsome (.inl ha)⟩
  · rw [hr]
    exact ⟨by simp [hna], by simp [hna, ht], by simpa using hsome (.inr ht)⟩
  · rw [hr]
    have hno : ∀ c ∈ candidates, c.admissibleToCurrentLane = false := fun c hc =>
      Bool.eq_false_iff.2 fun hl => (hlane c hc hl).elim hna hnt
    exact ⟨by simp [hna], by simp [hnt], by simpa using hno⟩

/-- **The plan of a wave is the greedy head-first packing**: the taken candidates are a part of the
queue in its order, each taken exactly when it was admissible, there was room, and it kept clear of
the active tasks and of what was taken before it. Nothing but the admissible candidates matters; and
an empty plan is explained by its reason. -/
theorem planAdmission_packs (candidates : List Candidate) (active : List ActiveTask)
    (capacity : Nat) (hcap : 1 ≤ capacity) :
    (∃ marked, Packed active capacity candidates marked ∧
      (takenOf marked).Sublist candidates ∧ (takenOf marked).length ≤ capacity ∧
      (takenOf marked).Pairwise (fun c d => c.domain.intersects d.domain = false) ∧
      (takenOf marked ≠ [] →
        planAdmission candidates active capacity = .admitted ((takenOf marked).map (·.id))) ∧
      (takenOf marked = [] → ∃ reason,
        planAdmission candidates active capacity = .empty reason ∧
          Explained active candidates reason)) ∧
      ∀ others : List Candidate, others.filter (·.admissibleToCurrentLane) =
          candidates.filter (·.admissibleToCurrentLane) →
        planAdmission others active capacity = planAdmission candidates active capacity := by
  have hpacked := @marks_packed active capacity candidates
  have hplan := @planAdmission_marks active capacity candidates
  refine ⟨⟨_, hpacked, ?_, hpacked.length_le, hpacked.pairwise, ?_, ?_⟩, ?_⟩
  · have hsub := (List.filter_sublist (p := (·.2))
      (l := marks active capacity [] candidates)).map (·.1)
    rw [marks_all] at hsub
    exact hsub
  · intro hne
    rw [hplan, if_neg fun h => hne (List.isEmpty_iff.1 h)]
  · intro hnone
    refine ⟨_, ?_, hpacked.explained hcap hnone⟩
    rw [hplan, if_pos (List.isEmpty_iff.2 hnone)]
  · intro others hsame
    rw [← planAdmission_filter others, hsame, planAdmission_filter]

/-- A task that is not ready, one that meets an active task, and one that is taken. -/
theorem planAdmission_packs_third :
    ∃ marked, Packed [⟨Domain.parse "a/**", .active⟩] 1
      [⟨"T-1", false, Domain.parse "c", .current⟩, ⟨"T-2", true, Domain.parse "a/x", .current⟩,
        ⟨"T-3", true, Domain.parse "b", .current⟩] marked := by
  obtain ⟨⟨marked, hpacked, -⟩, -⟩ := planAdmission_packs
    [⟨"T-1", false, Domain.parse "c", .current⟩, ⟨"T-2", true, Domain.parse "a/x", .current⟩,
      ⟨"T-3", true, Domain.parse "b", .current⟩] [⟨Domain.parse "a/**", .active⟩] 1 (by decide)
  exact ⟨marked, hpacked⟩

end Orchestrail
