import Mathlib.Data.List.Basic

/-!
# Programs of durable steps

A program works on a disk, which outlives it, and a memory, which does not. Between its durable
steps it computes; the environment may let a durable step happen, refuse it, cut it short, or let it
happen and report a failure all the same. A crash is any of the last three followed by the loss of
the memory, so the states a crash leaves are the states a failed program leaves.

`Runs image G prog s k Q`: started on the disk of the abstract state `s` with memory `k`, whatever
the faults, the durable states of the program are those of abstract states that follow each other by
`G`, and it ends as `Q` says. What `Q` says of an interrupted program is the crash condition; an
interruption needs a fault in the schedule, so without faults the program ends by itself.

* `runs_pure`, `runs_bind`, `runs_atomically` and their like: one rule for each way to build a
  program.
* `Runs.mono`: a weaker end.
-/

namespace Orchestrail.Durable

/-- What the environment may do to a durable step. -/
inductive Fault where
  /-- nothing reached the disk -/
  | refused
  /-- the first `count` units reached the disk -/
  | torn (count : Nat)
  /-- everything reached the disk, but the caller is told that it did not -/
  | unconfirmed
  deriving DecidableEq

/-- How a program ends early: by the environment, or by its own refusal. -/
inductive Halt (ε : Type) where
  | interrupted
  | failed (error : ε)
  deriving DecidableEq

structure Machine (δ μ : Type) where
  disk : δ
  memory : μ
  /-- what happens to the durable steps to come; nothing, when the list has run out -/
  faults : List (Option Fault) := []
  /-- the durable states passed, oldest first -/
  trail : List δ := []

abbrev Prog (δ μ ε : Type) := ExceptT (Halt ε) (StateM (Machine δ μ))

section Programs

variable {δ μ ε α : Type}

def onDisk : Prog δ μ ε δ := do return (← get).disk

def remembered : Prog δ μ ε μ := do return (← get).memory

def remember (k : μ) : Prog δ μ ε Unit := modify fun m => { m with memory := k }

/-- Refuse to go on. -/
def refuse (error : ε) : Prog δ μ ε α := throw (.failed error)

def attempt : Except ε α → Prog δ μ ε α
  | .ok a => pure a
  | .error e => refuse e

/-- The next entry of the schedule. -/
def nextFault : Prog δ μ ε (Option Fault) := do
  match (← get).faults with
  | [] => return none
  | fault :: faults =>
    modify fun m => { m with faults := faults }
    return fault

def land (d : δ) : Prog δ μ ε Unit :=
  modify fun m => { m with disk := d, trail := m.trail ++ [d] }

/-- A durable step that happens as a whole or not at all. -/
def atomically (f : δ → δ) : Prog δ μ ε Unit := do
  let d ← onDisk
  match ← nextFault with
  | none => land (f d)
  | some .unconfirmed => land (f d); throw .interrupted
  | some _ => throw .interrupted

/-- A durable step that may also stop after `n` units, as `partly n`. -/
def gradually (f : δ → δ) (partly : Nat → δ → δ) : Prog δ μ ε Unit := do
  let d ← onDisk
  match ← nextFault with
  | none => land (f d)
  | some .refused => throw .interrupted
  | some (.torn n) => land (partly n d); throw .interrupted
  | some .unconfirmed => land (f d); throw .interrupted

end Programs

/-- A chain of states from `s` to `t`. -/
def Linked {σ : Type} (G : σ → σ → Prop) : σ → List σ → σ → Prop
  | s, [], t => s = t
  | s, x :: xs, t => G s x ∧ Linked G x xs t

theorem Linked.append {σ : Type} {G : σ → σ → Prop} {xs ys : List σ} {s t u : σ}
    (h : Linked G s xs t) (h' : Linked G t ys u) : Linked G s (xs ++ ys) u := by
  induction xs generalizing s with
  | nil => subst h; exact h'
  | cons x xs ih => exact ⟨h.1, ih h.2⟩

/-- What holds at the first state and is kept by every link holds at every state of the chain. -/
theorem Linked.invariant {σ : Type} {G : σ → σ → Prop} {I : σ → Prop} {xs : List σ} {s t : σ}
    (h : Linked G s xs t) (hs : I s) (hstep : ∀ a b, I a → G a b → I b) :
    (∀ x ∈ xs, I x) ∧ I t := by
  induction xs generalizing s with
  | nil => exact ⟨by simp, h ▸ hs⟩
  | cons x xs ih =>
    have hx := hstep _ _ hs h.1
    obtain ⟨h1, h2⟩ := ih h.2 hx
    exact ⟨by simpa using ⟨hx, h1⟩, h2⟩

section Rules

variable {σ δ μ ε α β : Type} (image : σ → δ) (G : σ → σ → Prop)

/-- How `out`, reached from the machine `m` in the abstract state `s`, may look. -/
structure Ends (s : σ) (m : Machine δ μ) (out : Except (Halt ε) α × Machine δ μ)
    (Q : Except (Halt ε) α → σ → μ → Prop) : Prop where
  /-- the durable states passed and the one it ends in -/
  passage : ∃ passed t, out.2.trail = m.trail ++ passed.map image ∧ Linked G s passed t ∧
    out.2.disk = image t ∧ Q out.1 t out.2.memory
  /-- the schedule is used from its front -/
  schedule : ∃ used, m.faults = used ++ out.2.faults ∧
    (out.1 = .error .interrupted → ∃ fault ∈ used, fault ≠ none)

/-- Started on the disk of `s`, whatever the faults, the program passes durable states that are
images of abstract states linked by `G`, and ends as `Q` says. -/
def Runs (prog : Prog δ μ ε α) (s : σ) (k : μ) (Q : Except (Halt ε) α → σ → μ → Prop) : Prop :=
  ∀ faults trail, Ends image G s ⟨image s, k, faults, trail⟩
    (prog.run ⟨image s, k, faults, trail⟩) Q

/-- How a program goes on: with its value, or not at all. -/
def GoesOn (f : α → σ → μ → Prop) (Q : Except (Halt ε) β → σ → μ → Prop) :
    Except (Halt ε) α → σ → μ → Prop
  | .ok a, s, k => f a s k
  | .error e, s, k => Q (.error e) s k

variable {image G} {s : σ} {k : μ} {Q R : Except (Halt ε) α → σ → μ → Prop} {prog : Prog δ μ ε α}

theorem Runs.mono (h : Runs image G prog s k Q) (hQR : ∀ r t l, Q r t l → R r t l) :
    Runs image G prog s k R := by
  intro faults trail
  obtain ⟨⟨passed, t, h1, h2, h3, h4⟩, h5⟩ := h faults trail
  exact ⟨⟨passed, t, h1, h2, h3, hQR _ _ _ h4⟩, h5⟩

theorem runs_pure {a : α} (h : Q (.ok a) s k) : Runs image G (pure a : Prog δ μ ε α) s k Q := by
  intro faults trail
  exact ⟨⟨[], s, (List.append_nil _).symm, rfl, rfl, h⟩, ⟨[], rfl, fun h => by cases h⟩⟩

theorem runs_refuse {e : ε} (h : Q (.error (.failed e)) s k) :
    Runs image G (refuse e : Prog δ μ ε α) s k Q := by
  intro faults trail
  exact ⟨⟨[], s, (List.append_nil _).symm, rfl, rfl, h⟩, ⟨[], rfl, fun h => by cases h⟩⟩

theorem runs_bind {f : α → Prog δ μ ε β} {Q : Except (Halt ε) β → σ → μ → Prop}
    (h : Runs image G prog s k (GoesOn (fun a s k => Runs image G (f a) s k Q) Q)) :
    Runs image G (prog >>= f) s k Q := by
  intro faults trail
  obtain ⟨⟨passed, t, htrail, hlinked, hdisk, hpost⟩, ⟨used, hused, hfault⟩⟩ := h faults trail
  have hrun : (prog >>= f).run ⟨image s, k, faults, trail⟩ =
      match prog.run ⟨image s, k, faults, trail⟩ with
      | (.ok a, m) => (f a).run m
      | (.error e, m) => (.error e, m) := by
    simp only [bind, ExceptT.run, ExceptT.bind, ExceptT.mk, StateT.bind, ExceptT.bindCont]
    rcases prog ⟨image s, k, faults, trail⟩ with ⟨r | r, m⟩ <;> rfl
  rw [hrun]
  generalize prog.run ⟨image s, k, faults, trail⟩ = out at *
  obtain ⟨r, disk, memory, faults', trail'⟩ := out
  obtain rfl : disk = image t := hdisk
  cases r with
  | error e =>
    exact ⟨⟨passed, t, htrail, hlinked, rfl, hpost⟩, ⟨used, hused, fun he => hfault (by simpa using he)⟩⟩
  | ok a =>
    obtain ⟨⟨passed', t', htrail', hlinked', hdisk', hpost'⟩, ⟨used', hused', hfault'⟩⟩ :=
      hpost faults' trail'
    refine ⟨⟨passed ++ passed', t', ?_, hlinked.append hlinked', hdisk', hpost'⟩,
      ⟨used ++ used', ?_, fun he => ?_⟩⟩
    · rw [List.map_append, ← List.append_assoc, ← htrail]
      exact htrail'
    · rw [List.append_assoc]
      exact hused.trans (congrArg (used ++ ·) hused')
    · obtain ⟨fault, hmem, hne⟩ := hfault' he
      exact ⟨fault, List.mem_append_right _ hmem, hne⟩

theorem runs_onDisk {f : δ → Prog δ μ ε β} {Q : Except (Halt ε) β → σ → μ → Prop}
    (h : Runs image G (f (image s)) s k Q) : Runs image G (onDisk >>= f) s k Q :=
  fun faults trail => h faults trail

theorem runs_remembered {f : μ → Prog δ μ ε β} {Q : Except (Halt ε) β → σ → μ → Prop}
    (h : Runs image G (f k) s k Q) : Runs image G (remembered >>= f) s k Q :=
  fun faults trail => h faults trail

theorem runs_remember {l : μ} {f : Unit → Prog δ μ ε β} {Q : Except (Halt ε) β → σ → μ → Prop}
    (h : Runs image G (f ()) s l Q) : Runs image G (remember l >>= f) s k Q := by
  intro faults trail
  obtain ⟨hpassage, hschedule⟩ := h faults trail
  exact ⟨hpassage, hschedule⟩

theorem runs_attempt {x : Except ε α} (hok : ∀ a, x = .ok a → Q (.ok a) s k)
    (herror : ∀ e, x = .error e → Q (.error (.failed e)) s k) :
    Runs image G (attempt x : Prog δ μ ε α) s k Q := by
  cases x with
  | ok a => exact runs_pure (hok a rfl)
  | error e => exact runs_refuse (herror e rfl)

/-- **A step taken as a whole**: it happened, or it did not. -/
theorem runs_atomically {f : δ → δ} {Q : Except (Halt ε) Unit → σ → μ → Prop} (t : σ)
    (himage : f (image s) = image t) (hstep : G s t) (hdone : Q (.ok ()) t k)
    (hwhole : Q (.error .interrupted) t k) (hnone : Q (.error .interrupted) s k) :
    Runs image G (atomically f : Prog δ μ ε Unit) s k Q := by
  intro faults trail
  match faults with
  | [] => exact ⟨⟨[t], t, by simp [← himage]; rfl, ⟨hstep, rfl⟩, himage, hdone⟩, ⟨[], rfl, fun h => by cases h⟩⟩
  | none :: faults =>
    exact ⟨⟨[t], t, by simp [← himage]; rfl, ⟨hstep, rfl⟩, himage, hdone⟩, ⟨[none], rfl, fun h => by cases h⟩⟩
  | some .unconfirmed :: faults =>
    exact ⟨⟨[t], t, by simp [← himage]; rfl, ⟨hstep, rfl⟩, himage, hwhole⟩,
      ⟨[some .unconfirmed], rfl, fun _ => ⟨_, List.mem_cons_self, by simp⟩⟩⟩
  | some .refused :: faults =>
    exact ⟨⟨[], s, (List.append_nil _).symm, rfl, rfl, hnone⟩,
      ⟨[some .refused], rfl, fun _ => ⟨_, List.mem_cons_self, by simp⟩⟩⟩
  | some (.torn n) :: faults =>
    exact ⟨⟨[], s, (List.append_nil _).symm, rfl, rfl, hnone⟩,
      ⟨[some (.torn n)], rfl, fun _ => ⟨_, List.mem_cons_self, by simp⟩⟩⟩

/-- **A step taken by and by**: it happened, it did not, or a part of it did. -/
theorem runs_gradually {f : δ → δ} {partly : Nat → δ → δ} {Q : Except (Halt ε) Unit → σ → μ → Prop}
    (t : σ) (part : Nat → σ) (himage : f (image s) = image t) (hstep : G s t)
    (hpart : ∀ n, partly n (image s) = image (part n) ∧ G s (part n)) (hdone : Q (.ok ()) t k)
    (hwhole : Q (.error .interrupted) t k) (hnone : Q (.error .interrupted) s k)
    (hsome : ∀ n, Q (.error .interrupted) (part n) k) :
    Runs image G (gradually f partly : Prog δ μ ε Unit) s k Q := by
  intro faults trail
  match faults with
  | [] => exact ⟨⟨[t], t, by simp [← himage]; rfl, ⟨hstep, rfl⟩, himage, hdone⟩, ⟨[], rfl, fun h => by cases h⟩⟩
  | none :: faults =>
    exact ⟨⟨[t], t, by simp [← himage]; rfl, ⟨hstep, rfl⟩, himage, hdone⟩, ⟨[none], rfl, fun h => by cases h⟩⟩
  | some .unconfirmed :: faults =>
    exact ⟨⟨[t], t, by simp [← himage]; rfl, ⟨hstep, rfl⟩, himage, hwhole⟩,
      ⟨[some .unconfirmed], rfl, fun _ => ⟨_, List.mem_cons_self, by simp⟩⟩⟩
  | some .refused :: faults =>
    exact ⟨⟨[], s, (List.append_nil _).symm, rfl, rfl, hnone⟩,
      ⟨[some .refused], rfl, fun _ => ⟨_, List.mem_cons_self, by simp⟩⟩⟩
  | some (.torn n) :: faults =>
    obtain ⟨hn, hG⟩ := hpart n
    exact ⟨⟨[part n], part n, by simp [← hn]; rfl, ⟨hG, rfl⟩, hn, hsome n⟩,
      ⟨[some (.torn n)], rfl, fun _ => ⟨_, List.mem_cons_self, by simp⟩⟩⟩

/-- **Without faults** a program is not interrupted. -/
theorem Runs.unhindered (h : Runs image G prog s k Q) :
    (prog.run ⟨image s, k, [], []⟩).1 ≠ .error .interrupted ∧
      ∃ t, (prog.run ⟨image s, k, [], []⟩).2.disk = image t ∧
        Q (prog.run ⟨image s, k, [], []⟩).1 t (prog.run ⟨image s, k, [], []⟩).2.memory := by
  obtain ⟨⟨passed, t, -, -, hdisk, hpost⟩, ⟨used, hused, hfault⟩⟩ := h [] []
  refine ⟨fun he => ?_, t, hdisk, hpost⟩
  obtain ⟨fault, hmem, -⟩ := hfault he
  obtain ⟨rfl, -⟩ := List.append_eq_nil_iff.1 hused.symm
  simp at hmem

end Rules

end Orchestrail.Durable
