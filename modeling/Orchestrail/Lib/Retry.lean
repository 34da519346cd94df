import Orchestrail.Lib.Durable

/-!
# Programs that are run again

`Completes prog s k r t`: undisturbed, the program leads from the disk `s` to the disk `t` with the
result `r`. One rule for each way to build a program computes it, and one says that there is such a
disk and such a result (`Steady`). A disk an interrupted run leaves is harmless if a second run,
undisturbed, ends on the disk of the run that was never interrupted (`SameEnd`); that this holds of
every disk a program may leave is shown with the rules of `Runs`, and `rerun_same` reads it off the
runs.
-/

namespace Orchestrail.Durable

variable {δ μ ε α β : Type} {prog : Prog δ μ ε α} {s t u : δ} {k : μ}

/-- Undisturbed, the program leads from `s` to `t`. -/
def Completes (prog : Prog δ μ ε α) (s : δ) (k : μ) (r : Except (Halt ε) α) (t : δ) : Prop :=
  ∀ trail, ∃ passed, prog.run ⟨s, k, [], trail⟩ = (r, ⟨t, k, [], passed⟩)

theorem completes_pure (a : α) : Completes (pure a : Prog δ μ ε α) s k (.ok a) s :=
  fun trail => ⟨trail, rfl⟩

theorem completes_refuse (e : ε) :
    Completes (refuse e : Prog δ μ ε α) s k (.error (.failed e)) s :=
  fun trail => ⟨trail, rfl⟩

theorem completes_attempt {x : Except ε α} {a : α} (h : x = .ok a) :
    Completes (attempt x : Prog δ μ ε α) s k (.ok a) s := by
  subst h
  exact completes_pure a

theorem completes_bind {f : α → Prog δ μ ε β} {a : α} {r : Except (Halt ε) β}
    (h : Completes prog s k (.ok a) t) (hf : Completes (f a) t k r u) :
    Completes (prog >>= f) s k r u := by
  intro trail
  obtain ⟨passed, hrun⟩ := h trail
  obtain ⟨passed', hrun'⟩ := hf passed
  refine ⟨passed', ?_⟩
  simp only [bind, ExceptT.run, ExceptT.bind, ExceptT.mk, StateT.bind, ExceptT.bindCont] at hrun ⊢
  rw [hrun]
  exact hrun'

theorem completes_bind_error {f : α → Prog δ μ ε β} {e : Halt ε}
    (h : Completes prog s k (.error e) t) : Completes (prog >>= f) s k (.error e) t := by
  intro trail
  obtain ⟨passed, hrun⟩ := h trail
  refine ⟨passed, ?_⟩
  simp only [bind, ExceptT.run, ExceptT.bind, ExceptT.mk, StateT.bind, ExceptT.bindCont] at hrun ⊢
  rw [hrun]
  rfl

theorem completes_check {x : Except ε α} {a : α} {f : α → Prog δ μ ε β} {r : Except (Halt ε) β}
    (h : x = .ok a) (hf : Completes (f a) s k r t) : Completes (attempt x >>= f) s k r t :=
  completes_bind (completes_attempt h) hf

theorem completes_onDisk {f : δ → Prog δ μ ε β} {r : Except (Halt ε) β}
    (h : Completes (f s) s k r t) : Completes (onDisk >>= f) s k r t :=
  fun trail => h trail

theorem completes_atomically (f : δ → δ) :
    Completes (atomically f : Prog δ μ ε Unit) s k (.ok ()) (f s) :=
  fun trail => ⟨trail ++ [f s], rfl⟩

/-- Undisturbed, the program ends in some way, whatever was done before, and keeps its memory. -/
def Steady (prog : Prog δ μ ε α) : Prop := ∀ s k, ∃ r t, Completes prog s k r t

theorem steady_pure (a : α) : Steady (pure a : Prog δ μ ε α) :=
  fun s _ => ⟨.ok a, s, completes_pure a⟩

theorem steady_refuse (e : ε) : Steady (refuse e : Prog δ μ ε α) :=
  fun s _ => ⟨.error (.failed e), s, completes_refuse e⟩

theorem steady_attempt (x : Except ε α) : Steady (attempt x : Prog δ μ ε α) := by
  cases x with
  | ok a => exact steady_pure a
  | error e => exact steady_refuse e

theorem steady_onDisk {f : δ → Prog δ μ ε β} (h : ∀ s, Steady (f s)) :
    Steady (onDisk >>= f) := by
  intro s k
  obtain ⟨r, t, hrun⟩ := h s s k
  exact ⟨r, t, completes_onDisk hrun⟩

theorem steady_atomically (f : δ → δ) : Steady (atomically f : Prog δ μ ε Unit) :=
  fun s _ => ⟨.ok (), f s, completes_atomically f⟩

theorem steady_bind {f : α → Prog δ μ ε β} (h : Steady prog) (hf : ∀ a, Steady (f a)) :
    Steady (prog >>= f) := by
  intro s k
  obtain ⟨r, t, hrun⟩ := h s k
  cases r with
  | error e => exact ⟨.error e, t, completes_bind_error hrun⟩
  | ok a =>
    obtain ⟨r, u, hrun'⟩ := hf a t k
    exact ⟨r, u, completes_bind hrun hrun'⟩

theorem Completes.disk {r : Except (Halt ε) α} (h : Completes prog s k r t) :
    (prog.run ⟨s, k, [], []⟩).2.disk = t := by
  obtain ⟨passed, hrun⟩ := h []
  rw [hrun]

/-- Undisturbed, the program ends on the same disk from `s` and from `t`. -/
def SameEnd (prog : Prog δ μ ε α) (k : μ) (s t : δ) : Prop :=
  (prog.run ⟨t, k, [], []⟩).2.disk = (prog.run ⟨s, k, [], []⟩).2.disk

theorem SameEnd.rfl : SameEnd prog k s s := Eq.refl _

theorem SameEnd.trans (h : SameEnd prog k s t) (h' : SameEnd prog k t u) : SameEnd prog k s u :=
  Eq.trans h' h

theorem sameEnd_of_completes {r r' : Except (Halt ε) α} (h : Completes prog s k r u)
    (h' : Completes prog t k r' u) : SameEnd prog k s t :=
  h'.disk.trans h.disk.symm

/-- Two disks from which a first part leads to the same disk lead to the same end. -/
theorem sameEnd_bind {f : α → Prog δ μ ε β} {a : α} (hf : Steady (f a))
    (h : Completes prog s k (.ok a) u) (h' : Completes prog t k (.ok a) u) :
    SameEnd (prog >>= f) k s t := by
  obtain ⟨r, v, hrun⟩ := hf u k
  exact sameEnd_of_completes (completes_bind h hrun) (completes_bind h' hrun)

/-! ## Steps whose failure does not matter -/

/-- Run a program and forget how it ended. -/
def quietly (prog : Prog δ μ ε Unit) : Prog δ μ ε Unit :=
  ExceptT.mk do
    let _ ← prog.run
    return .ok ()

theorem runs_quietly {σ : Type} {image : σ → δ} {G : σ → σ → Prop} {s : σ}
    {prog : Prog δ μ ε Unit} {Q : Except (Halt ε) Unit → σ → μ → Prop}
    (h : Runs image G prog s k fun _ t l => Q (.ok ()) t l) :
    Runs image G (quietly prog) s k Q := by
  intro faults trail
  obtain ⟨⟨passed, t, htrail, hlinked, hdisk, hend⟩, ⟨used, hused, -⟩⟩ := h faults trail
  exact ⟨⟨passed, t, htrail, hlinked, hdisk, hend⟩, ⟨used, hused, fun he => by cases he⟩⟩

/-- **Run again**: what a disturbed run leaves leads to the end of the undisturbed one. -/
theorem rerun_same {G : δ → δ → Prop} (h : Runs id G prog s k fun _ t _ => SameEnd prog k s t)
    (faults : List (Option Fault)) :
    SameEnd prog k s (prog.run ⟨s, k, faults, []⟩).2.disk := by
  obtain ⟨⟨passed, t, -, -, hdisk, hend⟩, -⟩ := h faults []
  rw [show (prog.run ⟨s, k, faults, []⟩).2.disk = t from hdisk]
  exact hend

end Orchestrail.Durable
