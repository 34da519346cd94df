import Mathlib.Data.List.Forall2

/-!
# Postconditions of fallible functions

`Post x Q`: every value the computation `x` may return satisfies `Q`; a refusal satisfies anything.
The rules take a postcondition backwards through a function written with `do`, conditions and
refusals, so that what a function guarantees is proved by unfolding it once.

* `post_bind`, `post_ite`: the rules of the two ways a computation goes on.
* `Post.mono`: a weaker postcondition.
-/

namespace Orchestrail.Outcome

variable {ε α β : Type}

/-- Every value the computation may return satisfies `Q`. -/
def Post (x : Except ε α) (Q : α → Prop) : Prop := ∀ a, x = .ok a → Q a

variable {x : Except ε α} {Q R : α → Prop}

@[simp] theorem post_ok {a : α} : Post (.ok a : Except ε α) Q ↔ Q a := by
  unfold Post
  constructor
  · intro h; exact h a rfl
  · intro h b hb; exact Except.ok.inj hb ▸ h

@[simp] theorem post_error {e : ε} : Post (.error e : Except ε α) Q := by
  intro a ha
  cases ha

@[simp] theorem post_bind {f : α → Except ε β} {Q : β → Prop} :
    Post (x >>= f) Q ↔ Post x fun a => Post (f a) Q := by
  cases x with
  | error e => exact ⟨fun _ => post_error, fun _ => post_error⟩
  | ok a => rw [post_ok]; exact Iff.rfl

@[simp] theorem post_ite {c : Prop} [Decidable c] {y : Except ε α} :
    Post (if c then x else y) Q ↔ (c → Post x Q) ∧ (¬c → Post y Q) := by
  by_cases h : c <;> simp [h]

theorem Post.mono (h : Post x Q) (hQR : ∀ a, Q a → R a) : Post x R :=
  fun a ha => hQR a (h a ha)

/-- What a refusal cannot spoil. -/
theorem post_of_forall (h : ∀ a, Q a) : Post x Q := fun a _ => h a

/-- Refuse with `error` unless the condition holds. -/
def demand (c : Prop) [Decidable c] (error : ε) : Except ε Unit :=
  if c then .ok () else .error error

theorem demand_true {c : Prop} [Decidable c] {error : ε} (h : c) : demand c error = .ok () :=
  if_pos h

@[simp] theorem demand_trivial {i : Decidable True} {error : ε} :
    @demand ε True i error = .ok () := if_pos trivial

theorem demand_eq_ok {c : Prop} [Decidable c] {error : ε} {u : Unit} :
    demand c error = .ok u ↔ c := by
  unfold demand
  by_cases h : c <;> simp [h]

/-- A loop over a list succeeds with the results of its steps. -/
theorem mapM_eq_ok {f : α → Except ε β} {l : List α} {bs : List β} :
    l.mapM f = .ok bs ↔ List.Forall₂ (fun a b => f a = .ok b) l bs := by
  induction l generalizing bs with
  | nil =>
    rw [List.mapM_nil, List.forall₂_nil_left_iff]
    exact ⟨fun h => (Except.ok.inj h).symm, fun h => h ▸ rfl⟩
  | cons a l ih =>
    rw [List.mapM_cons, List.forall₂_cons_left_iff]
    constructor
    · intro h
      cases ha : f a with
      | error e => rw [ha] at h; cases h
      | ok b =>
        cases hl : l.mapM f with
        | error e => simp [ha, hl, bind, Except.bind] at h
        | ok cs =>
          rw [ha, hl] at h
          exact ⟨b, cs, rfl, ih.1 hl, (Except.ok.inj h).symm⟩
    · rintro ⟨b, cs, hb, hcs, rfl⟩
      rw [hb, ih.2 hcs]
      rfl

end Orchestrail.Outcome
