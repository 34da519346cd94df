import Orchestrail.Lib.Steps

/-!
# What a run owes to its past

* `run_of_exec`: an evaluated run with its trace.
-/

namespace Orchestrail.Steps

variable {σ τ α : Type} {next : σ → α → Option σ} {s t : σ} {tr : List (σ × α)} {P : σ → Prop}

/-- A run of a labelled relation, with its labels (oldest first). -/
inductive Path (moves : τ → α → τ → Prop) (c : τ) : List α → τ → Prop
  | nil : Path moves c [] c
  | snoc {as d a e} : Path moves c as d → moves d a e → Path moves c (as ++ [a]) e

/-- **A simulation of the steps is one of the runs**, if the steps keep what it asks for. -/
theorem Run.path {moves : τ → α → τ → Prop} (see : σ → τ) (I : σ → Prop) (h : Run next s tr t)
    (h0 : I s) (hstep : ∀ t a u, I t → next t a = some u → I u ∧ moves (see t) a (see u)) :
    I t ∧ Path moves (see s) (tr.map (·.2)) (see t) := by
  induction h with
  | nil => exact ⟨h0, .nil⟩
  | snoc _ hn ih =>
    obtain ⟨hI, hm⟩ := hstep _ _ _ ih.1 hn
    rw [List.map_append]
    exact ⟨hI, .snoc ih.2 hm⟩

/-- A step of the trace did `Q`, and from then on every state had `P`. -/
def Since (tr : List (σ × α)) (Q : σ → α → Prop) (P : σ → Prop) : Prop :=
  ∃ pre x post, tr = pre ++ x :: post ∧ Q x.1 x.2 ∧ ∀ y ∈ post, P y.1

theorem Since.snoc {Q : σ → α → Prop} {x : σ × α} (h : Since tr Q P) (hx : P x.1) :
    Since (tr ++ [x]) Q P := by
  obtain ⟨pre, y, post, rfl, hQ, hpost⟩ := h
  refine ⟨pre, y, post ++ [x], by simp, hQ, fun z hz => ?_⟩
  rcases List.mem_append.1 hz with hz | hz
  · exact hpost z hz
  · rw [List.mem_singleton.1 hz]
    exact hx

/-- **What holds now and did not at the start was brought about by a step and held since.** -/
theorem Run.since {Q : σ → α → Prop} (h : Run next s tr t) (h0 : ¬P s) (ht : P t)
    (henter : ∀ pre t a u, Run next s pre t → ¬P t → next t a = some u → P u → Q t a) :
    Since tr Q P := by
  induction h with
  | nil => exact absurd ht h0
  | @snoc tr t a u hr hn ih =>
    by_cases hP : P t
    · exact (ih hP).snoc hP
    · exact ⟨tr, (t, a), [], rfl, henter tr t a u hr hP hn ht, by simp⟩

/-- A step of the trace opened it, and no later one closed it. -/
def Outstanding (tr : List (σ × α)) (opens closes : σ → α → Prop) : Prop :=
  ∃ pre x post, tr = pre ++ x :: post ∧ opens x.1 x.2 ∧ ∀ y ∈ post, ¬closes y.1 y.2

theorem outstanding_snoc {opens closes : σ → α → Prop} {x : σ × α} :
    Outstanding (tr ++ [x]) opens closes ↔
      opens x.1 x.2 ∨ Outstanding tr opens closes ∧ ¬closes x.1 x.2 := by
  constructor
  · rintro ⟨pre, y, post, heq, hopens, hopen⟩
    rcases List.eq_nil_or_concat post with rfl | ⟨post, z, rfl⟩
    · obtain ⟨-, hlast⟩ := List.append_inj' heq rfl
      exact .inl (List.head_eq_of_cons_eq hlast ▸ hopens)
    · rw [List.concat_eq_append, ← List.cons_append, ← List.append_assoc] at heq
      obtain ⟨rfl, hlast⟩ := List.append_inj' heq rfl
      obtain rfl := List.head_eq_of_cons_eq hlast
      exact .inr ⟨⟨pre, y, post, rfl, hopens, fun z hz => hopen z (by simp [hz])⟩,
        hopen x (by simp)⟩
  · rintro (hopens | ⟨⟨pre, y, post, rfl, hopens, hopen⟩, hx⟩)
    · exact ⟨tr, x, [], rfl, hopens, by simp⟩
    · refine ⟨pre, y, post ++ [x], by simp, hopens, fun z hz => ?_⟩
      rcases List.mem_append.1 hz with hz | hz
      · exact hopen z hz
      · rwa [List.mem_singleton.1 hz]

/-- **What each step opens or keeps unless it closes it is exactly what is outstanding.** -/
theorem Run.outstanding_iff {opens closes : σ → α → Prop} (h : Run next s tr t) (h0 : ¬P s)
    (hstep : ∀ pre t a u, Run next s pre t → next t a = some u →
      (P u ↔ opens t a ∨ P t ∧ ¬closes t a)) : P t ↔ Outstanding tr opens closes := by
  induction h with
  | nil =>
    refine ⟨fun hs => absurd hs h0, fun ⟨pre, x, post, heq, _⟩ => ?_⟩
    simp at heq
  | snoc hr hn ih => rw [hstep _ _ _ _ hr hn, ih, outstanding_snoc]

theorem Run.append {tr' : List (σ × α)} {u : σ} (h : Run next s tr t) (h' : Run next t tr' u) :
    Run next s (tr ++ tr') u := by
  induction h' with
  | nil => rwa [List.append_nil]
  | snoc _ hn ih =>
    rw [← List.append_assoc]
    exact .snoc ih hn

theorem exec_run {as : List α} (h : exec next s as = some t) :
    ∃ tr, Run next s tr t ∧ tr.map (·.2) = as := by
  induction as generalizing s with
  | nil =>
    obtain rfl := Option.some.inj h
    exact ⟨[], .nil, rfl⟩
  | cons a as ih =>
    simp only [exec, Option.bind_eq_some_iff] at h
    obtain ⟨u, hu, ht⟩ := h
    obtain ⟨tr, hr, rfl⟩ := ih ht
    exact ⟨(s, a) :: tr, Run.append (.snoc .nil hu) hr, rfl⟩

theorem run_of_exec {as : List α} {f : σ → Bool} (h : (exec next s as).any f = true) :
    ∃ tr t, Run next s tr t ∧ tr.map (·.2) = as ∧ f t = true := by
  obtain ⟨t, ht, hf⟩ := (Option.any_eq_true _ _).1 h
  obtain ⟨tr, hr, htr⟩ := exec_run ht
  exact ⟨tr, t, hr, htr, hf⟩

end Orchestrail.Steps
