/-!
# Programs that look at a changing world

A program looks at a world that moves on by itself: `sight n` is the world at the `n`-th look, and
the program keeps count of its looks. It may fail, and the count goes on.

`Sees prog sight n Q`: started at the `n`-th look, the program ends as `Q` says, at the look `Q`
names.

* `sees_bind`, `sees_look`, `sees_give`, `sees_capture`: one rule for each way to build a program.
* `Sees.mono`: a weaker end.
-/

namespace Orchestrail.Watch

variable {ω ε α β : Type}

abbrev Watch (ω ε α : Type) := ReaderT (Nat → ω) (ExceptT ε (StateM Nat)) α

/-- The world at the next look. -/
def look : Watch ω ε ω := fun sight => do
  let n ← get
  set (n + 1)
  return sight n

def give : Except ε α → Watch ω ε α
  | .ok a => pure a
  | .error e => throw e

/-- The outcome of a program, as a value. -/
def capture (prog : Watch ω ε α) : Watch ω ε (Except ε α) := fun sight n =>
  let (r, m) := prog sight n
  (.ok r, m)

def Sees (prog : Watch ω ε α) (sight : Nat → ω) (n : Nat) (Q : Except ε α → Nat → Prop) : Prop :=
  Q (prog sight n).1 (prog sight n).2

variable {prog : Watch ω ε α} {sight : Nat → ω} {n : Nat} {Q R : Except ε α → Nat → Prop}

theorem Sees.mono (h : Sees prog sight n Q) (hQR : ∀ r m, Q r m → R r m) : Sees prog sight n R :=
  hQR _ _ h

theorem sees_pure {a : α} (h : Q (.ok a) n) : Sees (pure a) sight n Q := h

theorem sees_throw {e : ε} (h : Q (.error e) n) : Sees (throw e) sight n Q := h

theorem sees_give {x : Except ε α} (h : Q x n) : Sees (give x) sight n Q := by
  cases x <;> exact h

theorem sees_look {Q : Except ε ω → Nat → Prop} (h : Q (.ok (sight n)) (n + 1)) :
    Sees look sight n Q := h

theorem sees_capture {Q : Except ε (Except ε α) → Nat → Prop}
    (h : Sees prog sight n fun r m => Q (.ok r) m) : Sees (capture prog) sight n Q := h

/-- How a program goes on: with its value, or not at all. -/
def Onward (f : α → Watch ω ε β) (sight : Nat → ω) (Q : Except ε β → Nat → Prop) :
    Except ε α → Nat → Prop
  | .ok a, m => Sees (f a) sight m Q
  | .error e, m => Q (.error e) m

theorem run_bind {f : α → Watch ω ε β} : (prog >>= f) sight n = match prog sight n with
      | (.ok a, m) => f a sight m
      | (.error e, m) => (.error e, m) := by
  simp only [bind, ReaderT.bind, ExceptT.bind, ExceptT.mk, StateT.bind, ExceptT.bindCont]
  rcases prog sight n with ⟨r | r, m⟩ <;> rfl

theorem sees_bind {f : α → Watch ω ε β} {Q : Except ε β → Nat → Prop}
    (h : Sees prog sight n (Onward f sight Q)) : Sees (prog >>= f) sight n Q := by
  unfold Sees at *
  rw [run_bind]
  revert h
  rcases prog sight n with ⟨r | r, m⟩ <;> exact id

/-! ## Programs that end in time -/

/-- The count of looks never goes back. -/
def Patient (prog : Watch ω ε α) : Prop := ∀ sight n, n ≤ (prog sight n).2

theorem patient_pure {a : α} : Patient (pure a : Watch ω ε α) := fun _ _ => Nat.le_refl _

theorem patient_give {x : Except ε α} : Patient (give x : Watch ω ε α) := fun _ _ => by
  cases x <;> exact Nat.le_refl _

theorem patient_look : Patient (look : Watch ω ε ω) := fun _ n => Nat.le_succ n

theorem patient_bind {f : α → Watch ω ε β} (h : Patient prog) (hf : ∀ a, Patient (f a)) :
    Patient (prog >>= f) := fun sight n => by
  refine sees_bind (Q := fun _ m => n ≤ m) ?_
  have hprog := h sight n
  unfold Sees
  revert hprog
  rcases prog sight n with ⟨r | a, m⟩
  · exact id
  · exact fun hm => Nat.le_trans hm (hf a sight m)

theorem patient_capture (h : Patient prog) : Patient (capture prog) := h

theorem patient_throw {e : ε} : Patient (throw e : Watch ω ε α) := fun _ _ => Nat.le_refl _

/-- The program takes a look. -/
def Eager (prog : Watch ω ε α) : Prop := ∀ sight n, n < (prog sight n).2

theorem eager_look : Eager (look : Watch ω ε ω) := fun _ n => Nat.lt_succ_self n

theorem eager_bind {f : α → Watch ω ε β} (h : Eager prog) (hf : ∀ a, Patient (f a)) :
    Eager (prog >>= f) := fun sight n => by
  refine sees_bind (Q := fun _ m => n < m) ?_
  have hprog := h sight n
  unfold Sees
  revert hprog
  rcases prog sight n with ⟨r | a, m⟩
  · exact id
  · exact fun hm => Nat.lt_of_lt_of_le hm (hf a sight m)

/-- The value satisfies `P`, if the program ends by the look `last`. -/
def Till (sight : Nat → ω) (last : Nat) (prog : Watch ω ε α) (n : Nat) (P : α → Prop) : Prop :=
  Sees prog sight n fun r m => m ≤ last → ∀ a, r = .ok a → P a

section Till

variable {last : Nat} {P : α → Prop}

theorem till_pure {a : α} (h : P a) : Till sight last (pure a : Watch ω ε α) n P :=
  sees_pure fun _ _ hb => Except.ok.inj hb ▸ h

theorem till_give {x : Except ε α} (h : ∀ a, x = .ok a → P a) : Till sight last (give x) n P :=
  sees_give fun _ => h

theorem till_look {P : ω → Prop} (h : n < last → P (sight n)) :
    Till sight last (look : Watch ω ε ω) n P :=
  sees_look fun hm _ ha => Except.ok.inj ha ▸ h hm

/-- A program that goes on past the last look says nothing. -/
theorem till_of_late (hp : Patient prog) (h : n ≤ last → Till sight last prog n P) :
    Till sight last prog n P := fun hm => h (Nat.le_trans (hp sight n) hm) hm

theorem till_bind {f : α → Watch ω ε β} {Q : β → Prop} (hp : Patient prog)
    (hf : ∀ a, Patient (f a)) (h : Till sight last prog n P)
    (hnext : ∀ a m, n ≤ m → m ≤ last → P a → Till sight last (f a) m Q) :
    Till sight last (prog >>= f) n Q := by
  refine sees_bind ?_
  have hprog := hp sight n
  unfold Till Sees at h
  unfold Sees
  revert hprog h
  rcases prog sight n with ⟨r | a, m⟩
  · exact fun _ _ _ b hb => nomatch hb
  · intro h hnm
    exact till_of_late (hf a) fun hm => hnext a m hnm hm (h hm a rfl)

end Till

/-! ## Programs that end with a value in time -/

/-- The program ends with a value that satisfies `P`, if it ends by the look `last`. -/
def Done (sight : Nat → ω) (last : Nat) (prog : Watch ω ε α) (n : Nat) (P : α → Prop) : Prop :=
  Sees prog sight n fun r m => m ≤ last → ∃ a, r = .ok a ∧ P a

section Done

variable {last : Nat} {P R : α → Prop}

theorem Done.mono (h : Done sight last prog n P) (hPR : ∀ a, P a → R a) :
    Done sight last prog n R :=
  Sees.mono h fun _ _ h hm =>
    let ⟨a, hr, ha⟩ := h hm
    ⟨a, hr, hPR a ha⟩

theorem done_pure {a : α} (h : P a) : Done sight last (pure a : Watch ω ε α) n P :=
  sees_pure fun _ => ⟨a, rfl, h⟩

theorem done_give {a : α} (h : P a) : Done sight last (give (.ok a) : Watch ω ε α) n P :=
  sees_pure fun _ => ⟨a, rfl, h⟩

theorem done_look {P : ω → Prop} (h : n < last → P (sight n)) :
    Done sight last (look : Watch ω ε ω) n P :=
  sees_look fun hm => ⟨_, rfl, h hm⟩

theorem done_capture (h : Done sight last prog n P) :
    Done sight last (capture prog) n fun r => ∃ a, r = .ok a ∧ P a :=
  sees_capture (Sees.mono h fun r _ h hm => ⟨r, rfl, h hm⟩)

/-- A program that goes on past the last look owes nothing. -/
theorem done_of_late (hp : Patient prog) (h : n ≤ last → Done sight last prog n P) :
    Done sight last prog n P := fun hm => h (Nat.le_trans (hp sight n) hm) hm

/-- The rule to go on, where the look at which the value is there matters. -/
theorem done_bind_at {f : α → Watch ω ε β} {P : α → Nat → Prop} {Q : β → Prop} (hp : Patient prog)
    (hf : ∀ a, Patient (f a)) (h : Sees prog sight n fun r m => m ≤ last → ∃ a, r = .ok a ∧ P a m)
    (hnext : ∀ a m, n ≤ m → m ≤ last → P a m → Done sight last (f a) m Q) :
    Done sight last (prog >>= f) n Q := by
  refine sees_bind ?_
  have hprog := hp sight n
  unfold Sees at h
  unfold Sees
  revert hprog h
  rcases prog sight n with ⟨r | a, m⟩
  · intro h _ hm
    obtain ⟨a, ha, -⟩ := h hm
    cases ha
  · intro h hnm
    refine done_of_late (hf a) fun hm => ?_
    obtain ⟨b, hb, hP⟩ := h hm
    obtain rfl := Except.ok.inj hb
    exact hnext a m hnm hm hP

theorem done_bind {f : α → Watch ω ε β} {Q : β → Prop} (hp : Patient prog)
    (hf : ∀ a, Patient (f a)) (h : Done sight last prog n P)
    (hnext : ∀ a m, n ≤ m → m ≤ last → P a → Done sight last (f a) m Q) :
    Done sight last (prog >>= f) n Q :=
  done_bind_at hp hf h hnext

end Done

/-! ## Programs that end with a value -/

section Yields

/-- The program ends with a value, and the value satisfies `P`. -/
def Yields (sight : Nat → ω) (prog : Watch ω ε α) (P : α → Prop) : Prop :=
  ∀ n, Sees prog sight n fun r _ => ∃ a, r = .ok a ∧ P a

variable {P R : α → Prop} {Q : β → Prop}

theorem yields_pure {a : α} (h : P a) : Yields sight (pure a : Watch ω ε α) P :=
  fun _ => sees_pure ⟨a, rfl, h⟩

theorem yields_bind {f : α → Watch ω ε β} (h : Yields sight prog P)
    (hf : ∀ a, P a → Yields sight (f a) Q) : Yields sight (prog >>= f) Q := by
  intro n
  refine sees_bind ((h n).mono ?_)
  rintro r m ⟨a, rfl, ha⟩
  exact hf a ha m

end Yields

/-! ## Programs that see one world -/

/-- While the program sees one world only, it ends as it does where there is no other. -/
def Near (prog : Watch ω ε α) : Prop := ∀ (sight : Nat → ω) (world : ω) (n : Nat),
  (∀ i, n ≤ i → i < (prog sight n).2 → sight i = world) →
    ∀ k, (prog (fun _ => world) k).1 = (prog sight n).1

theorem near_pure {a : α} : Near (pure a : Watch ω ε α) := fun _ _ _ _ _ => rfl

theorem near_throw {e : ε} : Near (throw e : Watch ω ε α) := fun _ _ _ _ _ => rfl

theorem near_give {x : Except ε α} : Near (give x : Watch ω ε α) := fun _ _ _ _ _ => by
  cases x <;> rfl

theorem near_look : Near (look : Watch ω ε ω) := fun _ _ n h _ =>
  congrArg Except.ok (h n (Nat.le_refl _) (Nat.lt_succ_self n)).symm

theorem near_capture (h : Near prog) : Near (capture prog) := fun sight world n hone k =>
  congrArg Except.ok (h sight world n hone k)

theorem near_bind {f : α → Watch ω ε β} (hp : Patient prog) (hf : ∀ a, Patient (f a))
    (h : Near prog) (hnext : ∀ a, Near (f a)) : Near (prog >>= f) := by
  intro sight world n hone k
  have hprog := h sight world n
  have hle := hp sight n
  rw [run_bind] at hone ⊢
  rw [run_bind]
  rcases heq : prog sight n with ⟨r | a, m⟩
  · rw [heq] at hone hprog
    have hfst := hprog hone k
    rcases heq' : prog (fun _ => world) k with ⟨r' | a', m'⟩
    · rw [heq'] at hfst
      exact congrArg Except.error (Except.error.inj hfst)
    · rw [heq'] at hfst
      cases hfst
  · rw [heq] at hone hprog hle
    have hm := hf a sight m
    have hfst := hprog (fun i hi hlt => hone i hi (Nat.lt_of_lt_of_le hlt hm)) k
    rcases heq' : prog (fun _ => world) k with ⟨r' | a', m'⟩
    · rw [heq'] at hfst
      cases hfst
    · rw [heq'] at hfst
      cases hfst
      exact hnext a sight world m (fun i hi hlt => hone i (Nat.le_trans hle hi) hlt) m'

end Orchestrail.Watch
