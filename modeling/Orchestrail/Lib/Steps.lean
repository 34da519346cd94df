import Mathlib.Logic.Relation

/-!
# Guarded runs of a deterministic system

A system is a partial step function `next : σ → α → Option σ`: on an action it either refuses or
moves. `Run next s tr t` is a run from `s` to `t` with its trace, each step with the state it was
taken in. `Reach next ok s t` is a run whose every step meets the guard `ok`, without its trace.

* `Reach.invariant`: what holds at the start and is kept by every guarded step holds at the end.
* `Run.invariant`: the same with the trace so far at hand, for facts about the past.
-/

namespace Orchestrail.Steps

variable {σ α : Type}

/-- Run a list of actions; a refused one stops everything. -/
def exec (next : σ → α → Option σ) : σ → List α → Option σ
  | s, [] => some s
  | s, a :: as => (next s a).bind fun t => exec next t as

/-- A run, with the steps taken so far (oldest first). -/
inductive Run (next : σ → α → Option σ) (s : σ) : List (σ × α) → σ → Prop
  | nil : Run next s [] s
  | snoc {tr t a u} : Run next s tr t → next t a = some u → Run next s (tr ++ [(t, a)]) u

/-- The states reached by runs whose every step meets the guard. -/
inductive Reach (next : σ → α → Option σ) (ok : σ → α → Prop) (s : σ) : σ → Prop
  | refl : Reach next ok s s
  | step {t a u} : Reach next ok s t → ok t a → next t a = some u → Reach next ok s u

variable {next : σ → α → Option σ} {ok : σ → α → Prop} {s t u : σ}

theorem Reach.invariant {I : σ → Prop} (h : Reach next ok s t) (h0 : I s)
    (hstep : ∀ t a u, I t → ok t a → next t a = some u → I u) : I t := by
  induction h with
  | refl => exact h0
  | step _ hok hn ih => exact hstep _ _ _ ih hok hn

/-- An invariant of all runs may be used while proving one of guarded runs. -/
theorem Reach.mono {ok' : σ → α → Prop} (h : Reach next ok s t)
    (himp : ∀ t a, ok t a → ok' t a) : Reach next ok' s t := by
  induction h with
  | refl => exact .refl
  | step _ hok hn ih => exact .step ih (himp _ _ hok) hn

theorem Reach.trans (h : Reach next ok s t) (h' : Reach next ok t u) : Reach next ok s u := by
  induction h' with
  | refl => exact h
  | step _ hok hn ih => exact .step ih hok hn

/-- A guarded run, forgetting its trace. -/
theorem Run.reach {tr : List (σ × α)} (h : Run next s tr t) (hok : ∀ x ∈ tr, ok x.1 x.2) :
    Reach next ok s t := by
  induction h with
  | nil => exact .refl
  | snoc _ hn ih =>
    refine .step (ih fun x hx => hok x (List.mem_append_left _ hx)) ?_ hn
    exact hok _ (List.mem_append_right _ List.mem_cons_self)

theorem Run.invariant {I : List (σ × α) → σ → Prop} {tr : List (σ × α)} (h : Run next s tr t)
    (h0 : I [] s)
    (hstep : ∀ tr t a u, Run next s tr t → I tr t → next t a = some u → I (tr ++ [(t, a)]) u) :
    I tr t := by
  induction h with
  | nil => exact h0
  | snoc hr hn ih => exact hstep _ _ _ _ hr ih hn

/-- Every step of a run starts where a shorter run ends. -/
theorem Run.split {tr : List (σ × α)} (h : Run next s tr t) :
    ∀ pre x post, tr = pre ++ x :: post → Run next s pre x.1 := by
  induction h with
  | nil => intro pre x post he; simp at he
  | @snoc tr t a u hr hn ih =>
    intro pre x post he
    rcases List.eq_nil_or_concat post with rfl | ⟨post, y, rfl⟩
    · obtain ⟨rfl, rfl⟩ := List.append_inj' he rfl |>.imp id fun h => List.singleton_inj.1 h
      exact hr
    · have he' : tr ++ [(t, a)] = (pre ++ x :: post) ++ [y] := by simpa using he
      obtain ⟨rfl, -⟩ := List.append_inj' he' rfl
      exact ih pre x post rfl

/-- A run is cut at any of its steps. -/
theorem Run.cut {tr : List (σ × α)} (h : Run next s tr t) :
    ∀ pre x post, tr = pre ++ x :: post → ∃ u, next x.1 x.2 = some u ∧ Run next u post t := by
  induction h with
  | nil => intro pre x post he; simp at he
  | @snoc tr t a u hr hn ih =>
    intro pre x post he
    rcases List.eq_nil_or_concat post with rfl | ⟨post, y, rfl⟩
    · obtain ⟨rfl, rfl⟩ := List.append_inj' he rfl |>.imp id fun h => List.singleton_inj.1 h
      exact ⟨u, hn, .nil⟩
    · have he' : tr ++ [(t, a)] = (pre ++ x :: post) ++ [y] := by simpa using he
      obtain ⟨rfl, hy⟩ := List.append_inj' he' rfl
      obtain rfl := List.singleton_inj.1 hy
      obtain ⟨v, hv, hrest⟩ := ih pre x post rfl
      rw [List.concat_eq_append]
      exact ⟨v, hv, .snoc hrest hn⟩

theorem exec_reach {as : List α} (h : exec next s as = some t) :
    Reach next (fun _ _ => True) s t := by
  induction as generalizing s with
  | nil => obtain rfl := Option.some.inj h; exact .refl
  | cons a as ih =>
    simp only [exec, Option.bind_eq_some_iff] at h
    obtain ⟨u, hu, ht⟩ := h
    exact (Reach.step .refl trivial hu).trans (ih ht)

/-- The system that also refuses what the guard does not let through. -/
def guarded (ok : σ → α → Bool) (next : σ → α → Option σ) (s : σ) (a : α) : Option σ :=
  if ok s a then next s a else none

/-- What an evaluated run ends in is reached, within the guard it was run under. -/
theorem exec_any {ok : σ → α → Bool} {as : List α} {f : σ → Bool}
    (h : (exec (guarded ok next) s as).any f = true) :
    ∃ t, Reach next (fun s a => ok s a = true) s t ∧ f t = true := by
  obtain ⟨t, ht, hf⟩ := (Option.any_eq_true _ _).1 h
  refine ⟨t, ?_, hf⟩
  have hr := exec_reach ht
  clear ht h hf
  induction hr with
  | refl => exact .refl
  | step _ _ hn ih =>
    simp only [guarded] at hn
    split at hn
    · rename_i hok
      exact .step ih hok hn
    · simp at hn

end Orchestrail.Steps
