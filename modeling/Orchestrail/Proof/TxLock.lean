import Mathlib.Data.String.Basic
import Orchestrail.Lib.Steps
import Orchestrail.Spec.TxLock

/-!
# The transaction lock excludes

The sidecar is held at every point from the CreateNew on to the release, the sleep of a contender
included (`TxPoint.holds`), so that an owner's file is met by nobody else: `Turn` says what one
move can do, `TxKept` is what every move keeps, and `transaction_lock` reads exclusion off it.

A lock left behind is a file of readable text (`Readable`); once it has outlived the threshold the
next process to get the sidecar walks past it (`passes_orphan`, `enters`).
-/

namespace Orchestrail

open Steps

variable {ι : Type} [DecidableEq ι] {w u : TxWorld ι} {p q : ι} {staleAfterMs : Nat}
  {r : Option TxReport}

/-! ## What a point stands for -/

namespace TxPoint

/-- The sidecar is held here. -/
def holds : TxPoint → Bool
  | .idle | .trying _ => false
  | _ => true

/-- From a successful acquire to the end of its release. -/
def isInside : TxPoint → Bool
  | .inside _ _ | .releasing _ _ _ | .removing _ _ _ _ | .unlinking _ _ _ => true
  | _ => false

/-- The token a process goes by and the file it created. -/
def token : TxPoint → Option (String × Nat)
  | .inside owner lock | .releasing owner lock _ | .removing owner lock _ _
  | .unlinking owner lock _ => some (owner, lock)
  | _ => none

@[simp] def caller : TxPoint → Option String
  | .idle => none
  | .trying owner | .creating owner | .opening owner _ | .writing owner _ | .undoing owner _
  | .erasing owner _ | .sealing owner _ | .observing owner | .recreating owner | .judging owner _
  | .confirming owner _ | .authorizing owner _ _ | .quarantining owner _ _ | .verifying owner _ _
  | .sweeping owner _ _ | .resting owner _ | .inside owner _ | .releasing owner _ _
  | .removing owner _ _ _ | .unlinking owner _ _ => some owner

/-- What a process knows about the canonical name. -/
def Knows (entry : Option LockFile) : TxPoint → Prop
  | .opening _ lock | .writing _ lock | .undoing _ lock | .erasing _ lock =>
    ∃ text stamp, entry = some ⟨.file text, lock, stamp⟩
  | .sealing owner lock | .inside owner lock | .releasing owner lock _
  | .unlinking owner lock _ => ∃ stamp, entry = some ⟨.file owner, lock, stamp⟩
  | .removing owner lock _ expected =>
    (∃ stamp, entry = some ⟨.file owner, lock, stamp⟩) ∧ expected = lock
  | _ => True

/-- From one point to the next the caller stays, goes away, or is a new one with a checked token. -/
def Speaks (old new : TxPoint) : Prop :=
  ∀ owner, new.caller = some owner →
    old.caller = some owner ∨ validateTransactionOwnerToken owner

theorem holds_of_isInside {point : TxPoint} (h : point.isInside) : point.holds := by
  cases point <;> simp_all [isInside, holds]

theorem knows_of_not_holds {point : TxPoint} {entry : Option LockFile}
    (h : point.holds = false) : point.Knows entry := by
  cases point <;> simp_all [holds, Knows]

end TxPoint

/-! ## What one move can do -/

namespace TxWorld

/-- The sidecar is given back and the process is at `point`. -/
def left (w : TxWorld ι) (p : ι) (point : TxPoint) : TxWorld ι :=
  { w with sidecar := none }.setPoint p point

/-- A move of `p`, by what becomes of the sidecar and of the canonical name. -/
inductive Turn (w : TxWorld ι) (p : ι) : TxWorld ι → Option TxReport → Prop
  /-- away from the sidecar, nothing but the process changes -/
  | outside {point r} : (w.procs p).point.holds = false → point.holds = false →
    (w.procs p).point.Speaks point → r ≠ some .released → Turn w p (w.setPoint p point) r
  | takes {owner} : (w.procs p).point = .trying owner → w.sidecar = none →
    Turn w p ({ w with sidecar := some p }.setPoint p (.creating owner)) none
  /-- under the sidecar, nothing but the process changes -/
  | onward {proc r} : (w.procs p).point.holds → proc.point.holds →
    ((w.procs p).point.Knows w.entry → proc.point.Knows w.entry) →
    (w.procs p).point.Speaks proc.point → r ≠ some .released →
    Turn w p (w.setProc p proc) r
  | leaves {point r} : (w.procs p).point.holds → point.holds = false →
    (w.procs p).point.Speaks point → r ≠ some .released →
    Turn w p (w.left p point) r
  | creates {owner} (identity : Nat) :
    (w.procs p).point = .creating owner ∨ (w.procs p).point = .recreating owner →
    w.entry = none →
    Turn w p ({ w with entry := some ⟨.file "", identity, w.clock⟩ }.setPoint p
      (.opening owner identity)) none
  | writes {owner lock count} : (w.procs p).point = .writing owner lock →
    Turn w p ((w.writeOpen lock (leading count owner)).setPoint p (.writing owner lock)) none
  | fills {owner lock} : (w.procs p).point = .writing owner lock →
    Turn w p ((w.writeOpen lock owner).setPoint p (.sealing owner lock)) none
  | erases {owner lock} : (w.procs p).point = .erasing owner lock →
    Turn w p ({ w with entry := none }.left p .idle) (some .failed)
  | quarantines {owner confirmed sequence entry} :
    (w.procs p).point = .quarantining owner confirmed sequence → w.entry = some entry →
    Turn w p (({ w with entry := none }.setStale p sequence (some entry)).setPoint p
      (.verifying owner confirmed sequence)) none
  | sweeps {owner confirmed sequence} : (w.procs p).point = .sweeping owner confirmed sequence →
    Turn w p ((w.setStale p sequence none).left p (.trying owner)) none
  | releases {owner lock dropping} : (w.procs p).point = .unlinking owner lock dropping →
    Turn w p ({ w with entry := none }.left p .idle) (some .released)
  | crashes : Turn w p
    ({ w with sidecar := if w.sidecar = some p then none else w.sidecar }.setProc p {}) none

theorem speaks {old point new : TxPoint} (hpoint : old = point)
    (h : new.caller = point.caller ∨ new.caller = none) : old.Speaks new := by
  subst hpoint
  intro owner hnew
  rcases h with h | h
  · exact .inl (h ▸ hnew)
  · rw [h] at hnew
    cases hnew

theorem onward_turn {point : TxPoint} (h : w.goTo p point = some (u, r))
    (hp : (w.procs p).point.holds) (hpoint : point.holds)
    (hspeaks : (w.procs p).point.Speaks point)
    (hknows : (w.procs p).point.Knows w.entry → point.Knows w.entry) : w.Turn p u r := by
  cases h
  exact .onward hp hpoint hknows hspeaks (by simp)

theorem leaves_turn {point : TxPoint} {report : Option TxReport}
    (h : w.leaveTo p point report = some (u, r)) (hp : (w.procs p).point.holds)
    (hpoint : point.holds = false) (hspeaks : (w.procs p).point.Speaks point)
    (hreport : report ≠ some .released) : w.Turn p u r := by
  cases h
  exact .leaves hp hpoint hspeaks hreport

theorem refuse_turn {owner : String} {lock : Nat} {dropping : Bool} {report : TxReport}
    (h : w.refuse p owner lock dropping report = some (u, r))
    (hp : (w.procs p).point.holds) (hcaller : (w.procs p).point.caller = some owner)
    (hreport : report ≠ .released)
    (hknows : (w.procs p).point.Knows w.entry →
      ∃ stamp, w.entry = some ⟨.file owner, lock, stamp⟩) : w.Turn p u r := by
  unfold refuse at h
  split at h
  · exact leaves_turn h hp rfl (by simp [TxPoint.Speaks, TxPoint.caller]) (by simp)
  · cases h
    have hspeaks : (w.procs p).point.Speaks (.releasing owner lock true) :=
      fun _ h => .inl (hcaller.trans h)
    exact .onward hp rfl hknows hspeaks (by simpa using hreport)

theorem createNew_turn {owner : String} {identity : Nat} {occupied : TxWorld ι}
    (h : w.createNew p owner identity occupied = some (u, r))
    (hpoint : (w.procs p).point = .creating owner ∨ (w.procs p).point = .recreating owner)
    (hoccupied : w.Turn p occupied none) : w.Turn p u r := by
  unfold createNew at h
  split at h
  · cases h
    exact .creates identity hpoint ‹_›
  · cases h
    exact hoccupied

theorem proceed_turn {identity : Nat} (h : w.proceed staleAfterMs p identity = some (u, r)) :
    w.Turn p u r := by
  unfold proceed at h
  cases hpoint : (w.procs p).point with
  | idle => simp [hpoint] at h
  | trying owner =>
    simp only [hpoint] at h
    split at h
    · cases h
      exact .takes hpoint ‹_›
    · cases h
      exact .outside (by rw [hpoint]; rfl) rfl (speaks hpoint (by simp)) (by simp)
  | creating owner =>
    simp only [hpoint] at h
    have hp : (w.procs p).point.holds := by rw [hpoint]; rfl
    exact createNew_turn h (.inl hpoint)
      (.onward hp rfl (fun _ => trivial) (speaks hpoint (by simp)) (by simp))
  | opening owner lock =>
    simp only [hpoint] at h
    have hp : (w.procs p).point.holds := by rw [hpoint]; rfl
    split at h
    · exact onward_turn h hp rfl (speaks hpoint (by simp)) fun hknows => by rwa [hpoint] at hknows
    · exact leaves_turn h hp rfl (speaks hpoint (by simp)) (by simp)
  | writing owner lock =>
    simp only [hpoint] at h
    cases h
    exact .fills hpoint
  | undoing owner lock =>
    simp only [hpoint] at h
    have hp : (w.procs p).point.holds := by rw [hpoint]; rfl
    split at h
    · exact onward_turn h hp rfl (speaks hpoint (by simp)) fun hknows => by rwa [hpoint] at hknows
    · exact leaves_turn h hp rfl (speaks hpoint (by simp)) (by simp)
  | erasing owner lock =>
    simp only [hpoint] at h
    cases h
    exact .erases hpoint
  | sealing owner lock =>
    simp only [hpoint] at h
    have hp : (w.procs p).point.holds := by rw [hpoint]; rfl
    split at h
    · cases h
      exact .onward hp rfl (fun hknows => by rwa [hpoint] at hknows)
        (speaks hpoint (by simp)) (by simp)
    · exact leaves_turn h hp rfl (speaks hpoint (by simp)) (by simp)
  | observing owner =>
    simp only [hpoint] at h
    have hp : (w.procs p).point.holds := by rw [hpoint]; rfl
    split at h
    · exact onward_turn h hp rfl (speaks hpoint (by simp)) fun _ => trivial
    · split at h
      · exact onward_turn h hp rfl (speaks hpoint (by simp)) fun _ => trivial
      · exact leaves_turn h hp rfl (speaks hpoint (by simp)) (by simp)
  | recreating owner =>
    simp only [hpoint] at h
    have hp : (w.procs p).point.holds := by rw [hpoint]; rfl
    exact createNew_turn h (.inr hpoint) (.leaves hp rfl (speaks hpoint (by simp)) (by simp))
  | judging owner seen =>
    simp only [hpoint] at h
    have hp : (w.procs p).point.holds := by rw [hpoint]; rfl
    split at h <;> exact onward_turn h hp rfl (speaks hpoint (by simp)) fun _ => trivial
  | confirming owner decided =>
    simp only [hpoint] at h
    have hp : (w.procs p).point.holds := by rw [hpoint]; rfl
    split at h
    · exact leaves_turn h hp rfl (speaks hpoint (by simp)) (by simp)
    · split at h
      · exact leaves_turn h hp rfl (speaks hpoint (by simp)) (by simp)
      · split at h
        · split at h
          · cases h
            exact .onward hp rfl (fun _ => trivial) (speaks hpoint (by simp)) (by simp)
          · cases h
            exact .onward hp rfl (fun _ => trivial) (speaks hpoint (by simp)) (by simp)
          all_goals exact onward_turn h hp rfl (speaks hpoint (by simp)) fun _ => trivial
        · exact onward_turn h hp rfl (speaks hpoint (by simp)) fun _ => trivial
  | authorizing owner confirmed sequence =>
    simp only [hpoint] at h
    have hp : (w.procs p).point.holds := by rw [hpoint]; rfl
    split at h
    · exact leaves_turn h hp rfl (speaks hpoint (by simp)) (by simp)
    · split at h
      · exact onward_turn h hp rfl (speaks hpoint (by simp)) fun _ => trivial
      · exact leaves_turn h hp rfl (speaks hpoint (by simp)) (by simp)
  | quarantining owner confirmed sequence =>
    simp only [hpoint] at h
    have hp : (w.procs p).point.holds := by rw [hpoint]; rfl
    split at h
    · exact leaves_turn h hp rfl (speaks hpoint (by simp)) (by simp)
    · split at h
      · cases h
        exact .quarantines hpoint ‹_›
      · exact leaves_turn h hp rfl (speaks hpoint (by simp)) (by simp)
  | verifying owner confirmed sequence =>
    simp only [hpoint] at h
    have hp : (w.procs p).point.holds := by rw [hpoint]; rfl
    split at h
    · exact leaves_turn h hp rfl (speaks hpoint (by simp)) (by simp)
    · split at h
      · exact onward_turn h hp rfl (speaks hpoint (by simp)) fun _ => trivial
      · exact leaves_turn h hp rfl (speaks hpoint (by simp)) (by simp)
  | sweeping owner confirmed sequence =>
    simp only [hpoint] at h
    cases h
    exact .sweeps hpoint
  | resting owner seen =>
    simp only [hpoint] at h
    exact leaves_turn h (by rw [hpoint]; rfl) rfl (speaks hpoint (by simp)) (by simp)
  | inside owner lock =>
    simp only [hpoint] at h
    exact onward_turn h (by rw [hpoint]; rfl) rfl (speaks hpoint (by simp)) fun hknows =>
      by rwa [hpoint] at hknows
  | releasing owner lock dropping =>
    simp only [hpoint] at h
    have hp : (w.procs p).point.holds := by rw [hpoint]; rfl
    have hknows (hk : (w.procs p).point.Knows w.entry) :
        ∃ stamp, w.entry = some ⟨.file owner, lock, stamp⟩ := by rwa [hpoint] at hk
    split at h
    · exact refuse_turn h hp (by rw [hpoint]; rfl) (by simp) hknows
    · rename_i entry hentry
      split at h
      · exact refuse_turn h hp (by rw [hpoint]; rfl) (by simp) hknows
      · rename_i snapshot hsnapshot
        split at h
        · refine onward_turn h hp rfl (speaks hpoint (by simp)) fun hk => ⟨hknows hk, ?_⟩
          obtain ⟨stamp, he⟩ := hknows hk
          obtain rfl : entry = ⟨.file owner, lock, stamp⟩ := by simpa [hentry] using he
          unfold transactionLockSnapshot at hsnapshot
          simp only at hsnapshot
          split at hsnapshot
          · cases hsnapshot
            rfl
          · cases hsnapshot
        · exact refuse_turn h hp (by rw [hpoint]; rfl) (by simp) hknows
  | removing owner lock dropping expected =>
    simp only [hpoint] at h
    have hp : (w.procs p).point.holds := by rw [hpoint]; rfl
    have hknows (hk : (w.procs p).point.Knows w.entry) :
        ∃ stamp, w.entry = some ⟨.file owner, lock, stamp⟩ := by rw [hpoint] at hk; exact hk.1
    split at h
    · exact onward_turn h hp rfl (speaks hpoint (by simp)) hknows
    · exact refuse_turn h hp (by rw [hpoint]; rfl) (by simp) hknows
  | unlinking owner lock dropping =>
    simp only [hpoint] at h
    cases h
    exact .releases hpoint

theorem failing_turn (h : w.failing p = some (u, r)) : w.Turn p u r := by
  unfold failing at h
  cases hpoint : (w.procs p).point with
  | idle => simp [hpoint] at h
  | resting owner seen => simp [hpoint] at h
  | trying owner =>
    simp only [hpoint] at h
    cases h
    exact .outside (by rw [hpoint]; rfl) rfl (speaks hpoint (by simp)) (by simp)
  | inside owner lock =>
    simp only [hpoint] at h
    exact onward_turn h (by rw [hpoint]; rfl) rfl (speaks hpoint (by simp)) fun hknows =>
      by rwa [hpoint] at hknows
  | writing owner lock =>
    simp only [hpoint] at h
    exact onward_turn h (by rw [hpoint]; rfl) rfl (speaks hpoint (by simp)) fun hknows =>
      by rwa [hpoint] at hknows
  | releasing owner lock dropping =>
    simp only [hpoint] at h
    exact refuse_turn h (by rw [hpoint]; rfl) (by rw [hpoint]; rfl) (by simp) fun hknows =>
      by rwa [hpoint] at hknows
  | removing owner lock dropping expected =>
    simp only [hpoint] at h
    exact refuse_turn h (by rw [hpoint]; rfl) (by rw [hpoint]; rfl) (by simp) fun hknows => by
      rw [hpoint] at hknows; exact hknows.1
  | unlinking owner lock dropping =>
    simp only [hpoint] at h
    exact refuse_turn h (by rw [hpoint]; rfl) (by rw [hpoint]; rfl) (by simp) fun hknows =>
      by rwa [hpoint] at hknows
  | _ =>
    simp only [hpoint] at h
    exact leaves_turn h (by rw [hpoint]; rfl) rfl (speaks hpoint (by simp)) (by simp)

theorem expiring_turn (h : w.expiring p = some (u, r)) : w.Turn p u r := by
  unfold expiring at h
  split at h
  · rename_i owner hpoint
    have hp : (w.procs p).point.holds = false := by rw [hpoint]; rfl
    split at h
    · cases h
    · cases h
      exact .outside hp rfl (speaks hpoint (by simp)) (by simp)
    · split at h <;> cases h <;> exact .outside hp rfl (speaks hpoint (by simp)) (by simp)
  · rename_i owner seen hpoint
    exact leaves_turn h (by rw [hpoint]; rfl) rfl (speaks hpoint (by simp)) (by simp)
  · cases h

theorem moved_turn {move : TxMove} (h : w.moved staleAfterMs p move = some (u, r)) :
    w.Turn p u r := by
  cases move with
  | begin owner =>
    simp only [moved] at h
    split at h
    · rename_i hidle
      have hp : (w.procs p).point.holds = false := by rw [hidle.1]; rfl
      split at h
      · rename_i hvalid
        cases h
        exact .outside hp rfl (fun _ h => .inr (Option.some.inj h ▸ hvalid)) (by simp)
      · cases h
        have hsame : w = w.setPoint p (w.procs p).point := by
          have : (fun q => if q = p then w.procs p else w.procs q) = w.procs := by
            funext q
            by_cases hq : q = p <;> simp [hq]
          simp only [setPoint, setProc]
          rw [this]
        have hturn : w.Turn p (w.setPoint p (w.procs p).point) (some .refused) :=
          .outside hp hp (fun _ => .inl) (by simp)
        rwa [← hsame] at hturn
    · cases h
  | go identity => exact proceed_turn h
  | write count =>
    simp only [moved] at h
    split at h
    · cases h
      exact .writes ‹_›
    · cases h
  | expire => exact expiring_turn h
  | fail => exact failing_turn h
  | crash =>
    cases h
    exact .crashes

/-! ## What every move keeps -/

@[simp] theorem setProc_procs (proc : TxProcess) (q : ι) :
    (w.setProc p proc).procs q = if q = p then proc else w.procs q := rfl

@[simp] theorem setPoint_point (point : TxPoint) (q : ι) :
    ((w.setPoint p point).procs q).point = if q = p then point else (w.procs q).point := by
  by_cases hq : q = p <;> simp [setPoint, hq]

theorem setPoint_same (point : TxPoint) : ((w.setPoint p point).procs p).point = point := by
  simp

theorem left_same (point : TxPoint) : ((w.left p point).procs p).point = point := by
  simp [left]

/-- Who holds the sidecar, and what everybody knows about the canonical name. -/
structure TxKept (w : TxWorld ι) : Prop where
  holder : ∀ p, w.sidecar = some p ↔ (w.procs p).point.holds
  knows : ∀ p, (w.procs p).point.Knows w.entry

theorem Turn.others (h : w.Turn p u r) (hq : q ≠ p) : u.procs q = w.procs q := by
  cases h <;> simp [setPoint, setProc, left, writeOpen, setStale, hq]

/-- Without the sidecar a process touches no name of the directory. -/
theorem Turn.apart (h : w.Turn p u r) (hp : (w.procs p).point.holds = false) :
    u.entry = w.entry ∧ u.stale = w.stale := by
  cases h with
  | outside | takes | crashes => exact ⟨rfl, rfl⟩
  | onward hholds | leaves hholds => simp [hp] at hholds
  | creates _ hpoint => rcases hpoint with hpoint | hpoint <;> simp [hpoint, TxPoint.holds] at hp
  | writes hpoint | fills hpoint | erases hpoint | quarantines hpoint | sweeps hpoint
  | releases hpoint => simp [hpoint, TxPoint.holds] at hp

/-- Whoever is at a point that holds the sidecar has it, had it or found it free. -/
theorem Turn.sidecar (h : w.Turn p u r)
    (hp : w.sidecar = some p ↔ (w.procs p).point.holds) :
    u.sidecar = (if (u.procs p).point.holds then some p
      else if w.sidecar = some p then none else w.sidecar) ∧
    ((u.procs p).point.holds → w.sidecar = some p ∨ w.sidecar = none) := by
  cases h with
  | outside hholds hpoint =>
    have hfree : w.sidecar ≠ some p := by simp [hp, hholds]
    simp [setPoint, setProc, hpoint, hfree]
  | takes hpoint hnone => simp [setPoint, setProc, TxPoint.holds, hnone]
  | onward hholds hpoint => simp [setProc, hpoint, hp.2 hholds]
  | leaves hholds hpoint => simp [left, setPoint, setProc, hpoint, hp.2 hholds]
  | creates _ hpoint =>
    have hmine := hp.2 (by rcases hpoint with hpoint | hpoint <;> rw [hpoint] <;> rfl)
    simp [setPoint, setProc, TxPoint.holds, hmine]
  | writes hpoint | fills hpoint | quarantines hpoint =>
    have hmine := hp.2 (by rw [hpoint]; rfl)
    simp [setPoint, setProc, setStale, writeOpen, TxPoint.holds, hmine]
  | erases hpoint | sweeps hpoint | releases hpoint =>
    have hmine := hp.2 (by rw [hpoint]; rfl)
    simp [left, setPoint, setProc, setStale, TxPoint.holds, hmine]
  | crashes => simp [setProc, TxPoint.holds]

omit [DecidableEq ι] in
theorem writeOpen_entry {text old : String} {lock stamp : Nat}
    (h : w.entry = some ⟨.file old, lock, stamp⟩) :
    (w.writeOpen lock text).entry = some ⟨.file text, lock, w.clock⟩ := by
  simp [writeOpen, h]

/-- What the process that moved knows afterwards. -/
theorem Turn.knows (h : w.Turn p u r) (hp : (w.procs p).point.Knows w.entry) :
    (u.procs p).point.Knows u.entry := by
  cases h with
  | outside _ hpoint =>
    simpa using TxPoint.knows_of_not_holds hpoint
  | takes => simp [TxPoint.Knows]
  | onward _ _ hknows => simpa [setProc] using hknows hp
  | leaves _ hpoint => simpa [left] using TxPoint.knows_of_not_holds hpoint
  | creates identity _ _ =>
    simp only [setPoint_point, if_true]
    exact ⟨_, _, rfl⟩
  | writes hpoint =>
    rw [hpoint] at hp
    obtain ⟨text, stamp, he⟩ := hp
    simp only [setPoint_point, if_true]
    exact ⟨_, _, writeOpen_entry he⟩
  | fills hpoint =>
    rw [hpoint] at hp
    obtain ⟨text, stamp, he⟩ := hp
    simp only [setPoint_point, if_true]
    exact ⟨_, writeOpen_entry he⟩
  | erases | quarantines | sweeps | releases | crashes => simp [left, TxPoint.Knows]

theorem Turn.kept (h : w.Turn p u r) (hkept : TxKept w) : TxKept u := by
  obtain ⟨hside, hmine⟩ := h.sidecar (hkept.holder p)
  refine ⟨fun q => ?_, fun q => ?_⟩
  · by_cases hq : q = p
    · subst hq
      rw [hside]
      split <;> rename_i hholds
      · simp [hholds]
      · split <;> simp_all
    · rw [h.others hq, ← hkept.holder q, hside]
      split <;> rename_i hholds
      -- the mover has the sidecar: it had it before, or nobody had
      · rcases hmine hholds with hw | hw <;> simp [hw, Ne.symm hq]
      · split <;> rename_i hw
        · simp [hw, Ne.symm hq]
        · rfl
  · by_cases hq : q = p
    · subst hq
      exact h.knows (hkept.knows q)
    · rw [h.others hq]
      cases hholds : (w.procs q).point.holds with
      | false => exact TxPoint.knows_of_not_holds hholds
      | true =>
        -- the sidecar is with `q`, so that the mover leaves the name alone
        have hw := (hkept.holder q).2 hholds
        have hp : (w.procs p).point.holds = false := by
          by_contra hcon
          have hw' := (hkept.holder p).2 (by simpa using hcon)
          exact hq (Option.some.inj (hw.symm.trans hw'))
        rw [(h.apart hp).1]
        exact hkept.knows q

/-! ## What stands under a name can be read -/

theorem utf8Len_le (cs : List Char) : String.utf8Len cs ≤ 4 * cs.length := by
  induction cs with
  | nil => simp
  | cons ch cs ih =>
    have := ch.utf8Size_le_four
    simp only [String.utf8Len_cons, List.length_cons]
    omega

theorem utf8ByteSize_le (text : String) : text.utf8ByteSize ≤ 4 * text.toList.length := by
  have h := utf8Len_le text.toList
  rwa [← String.utf8ByteSize_ofList, String.ofList_toList] at h

theorem token_short {owner : String} (h : validateTransactionOwnerToken owner) :
    owner.toList.length ≤ transactionOwnerMaxChars := by
  simp only [validateTransactionOwnerToken, Bool.not_eq_true', Bool.or_eq_false_iff,
    decide_eq_false_iff_not, not_lt] at h
  exact h.2

theorem length_leading (count : Nat) (text : String) :
    (leading count text).toList.length ≤ text.toList.length := by
  rw [leading, String.toList_ofList, List.length_take]
  omega

/-- A file of text within the bound of a read. -/
def Readable (entry : LockFile) : Prop :=
  ∃ text, entry.kind = .file text ∧ text.utf8ByteSize ≤ maxLeaseBytes

theorem readable_of_short {text : String} {identity stamp : Nat}
    (h : text.toList.length ≤ transactionOwnerMaxChars) :
    Readable ⟨.file text, identity, stamp⟩ := by
  have hsize := utf8ByteSize_le text
  have hmax : 4 * transactionOwnerMaxChars ≤ maxLeaseBytes := by decide
  exact ⟨text, rfl, by omega⟩

/-- Every lock left behind can be read, and every caller's token was checked. -/
structure Legible (w : TxWorld ι) : Prop where
  entry : ∀ e, w.entry = some e → Readable e
  stale : ∀ p sequence e, w.stale p sequence = some e → Readable e
  caller : ∀ p owner, (w.procs p).point.caller = some owner →
    validateTransactionOwnerToken owner

omit [DecidableEq ι] in
theorem writeOpen_readable {text : String} {lock : Nat} {e : LockFile}
    (hw : ∀ e, w.entry = some e → Readable e)
    (htext : text.toList.length ≤ transactionOwnerMaxChars)
    (h : (w.writeOpen lock text).entry = some e) : Readable e := by
  simp only [writeOpen, Option.map_eq_some_iff] at h
  obtain ⟨old, hold, rfl⟩ := h
  split
  · exact readable_of_short htext
  · exact hw old hold

theorem setStale_readable {sequence n : Nat} {entry : Option LockFile} {e : LockFile}
    (hw : ∀ q n e, w.stale q n = some e → Readable e)
    (hentry : ∀ e, entry = some e → Readable e)
    (h : (w.setStale p sequence entry).stale q n = some e) : Readable e := by
  simp only [setStale] at h
  split at h
  · exact hentry e h
  · exact hw q n e h

theorem Turn.caller (h : w.Turn p u r) {owner : String}
    (hcaller : (u.procs p).point.caller = some owner) :
    (w.procs p).point.caller = some owner ∨ validateTransactionOwnerToken owner := by
  cases h with
  | outside _ _ hspeaks => exact hspeaks owner (by simpa using hcaller)
  | onward _ _ _ hspeaks => exact hspeaks owner (by simpa [setProc] using hcaller)
  | leaves _ _ hspeaks => exact hspeaks owner (by simpa [left] using hcaller)
  | takes hpoint | writes hpoint | fills hpoint | quarantines hpoint | sweeps hpoint =>
    refine .inl ?_
    rw [hpoint]
    simpa [left, TxPoint.caller] using hcaller
  | creates _ hpoint =>
    refine .inl ?_
    rcases hpoint with hpoint | hpoint <;> rw [hpoint] <;>
      simpa [TxPoint.caller] using hcaller
  | erases | releases | crashes => simp [left, TxPoint.caller] at hcaller

theorem Turn.legible (h : w.Turn p u r) (hw : Legible w) : Legible u := by
  have hcaller : ∀ q owner, (u.procs q).point.caller = some owner →
      validateTransactionOwnerToken owner := by
    intro q owner hq
    by_cases hqp : q = p
    · subst hqp
      rcases h.caller hq with hold | hvalid
      · exact hw.caller q owner hold
      · exact hvalid
    · rw [h.others hqp] at hq
      exact hw.caller q owner hq
  have hshort {owner : String} (hmine : (w.procs p).point.caller = some owner) :
      owner.toList.length ≤ transactionOwnerMaxChars := token_short (hw.caller p owner hmine)
  cases h with
  | outside | takes | onward | leaves | crashes => exact ⟨hw.entry, hw.stale, hcaller⟩
  | creates identity _ _ =>
    refine ⟨fun e he => ?_, hw.stale, hcaller⟩
    obtain rfl := Option.some.inj he
    exact readable_of_short (by decide)
  | @writes owner lock count hpoint =>
    refine ⟨fun e he => writeOpen_readable hw.entry ?_ he, hw.stale, hcaller⟩
    exact (length_leading count owner).trans (hshort (by rw [hpoint]; rfl))
  | fills hpoint =>
    exact ⟨fun e he => writeOpen_readable hw.entry (hshort (by rw [hpoint]; rfl)) he, hw.stale,
      hcaller⟩
  | erases | releases => exact ⟨fun e he => (by cases he), hw.stale, hcaller⟩
  | quarantines hpoint hentry =>
    refine ⟨fun e he => (by cases he), fun q n e he => ?_, hcaller⟩
    exact setStale_readable hw.stale (fun e he => hw.entry e (hentry.trans he)) he
  | sweeps =>
    refine ⟨hw.entry, fun q n e he => ?_, hcaller⟩
    exact setStale_readable hw.stale (fun e he => (by cases he)) he

theorem snapshot_of_readable {e : LockFile} (h : Readable e) (clock : Nat) :
    ∃ owner, transactionLockSnapshot clock e =
      some ⟨.file owner, e.stamp, ageMs clock e.stamp, e.identity⟩ := by
  obtain ⟨text, hkind, hsize⟩ := h
  exact ⟨leading transactionOwnerMaxChars text, by simp [transactionLockSnapshot, hkind, hsize]⟩

/-! ## Nobody waits for ever -/

/-- A call of `p` that comes back. -/
def Call (staleAfterMs identity : Nat) (p : ι) (w u : TxWorld ι) : Prop :=
  w.next staleAfterMs (.move p (.go identity)) = some u

/-- `p`, running on its own, comes to a world like this. -/
def Comes (staleAfterMs identity : Nat) (p : ι) (w : TxWorld ι) (Q : TxWorld ι → Prop) : Prop :=
  ∃ u, Relation.ReflTransGen (Call staleAfterMs identity p) w u ∧ Q u

/-- `p` gets the lock. -/
def Enters (staleAfterMs identity : Nat) (p : ι) (w : TxWorld ι) : Prop :=
  Comes staleAfterMs identity p w fun u => (u.procs p).point.isInside

variable {identity lock sequence stamp : Nat} {owner text : String} {e : LockFile}
  {seen : TransactionLockSnapshot} {Q : TxWorld ι → Prop} {v : TxWorld ι}

theorem comes_here (h : Q w) : Comes staleAfterMs identity p w Q := ⟨w, .refl, h⟩

theorem comes_head (h : w.proceed staleAfterMs p identity = some (v, r))
    (hv : Comes staleAfterMs identity p v Q) : Comes staleAfterMs identity p w Q := by
  obtain ⟨u, hcalls, hu⟩ := hv
  have hcall : Call staleAfterMs identity p w v := by simp [Call, next, step, moved, h]
  exact ⟨u, .head hcall hcalls, hu⟩

theorem sealing_enters (hpoint : (w.procs p).point = .sealing owner lock)
    (hentry : w.entry = some ⟨.file owner, lock, stamp⟩) : Enters staleAfterMs identity p w :=
  comes_head (v := w.setPoint p (.inside owner lock)) (r := some .acquired)
    (by simp [proceed, hpoint, hentry]) (comes_here (by simp [TxPoint.isInside]))

theorem writing_enters (hpoint : (w.procs p).point = .writing owner lock)
    (hentry : w.entry = some ⟨.file text, lock, stamp⟩) : Enters staleAfterMs identity p w :=
  comes_head (v := (w.writeOpen lock owner).setPoint p (.sealing owner lock)) (r := none)
    (by simp [proceed, hpoint, goTo]) (sealing_enters (setPoint_same _) (writeOpen_entry hentry))

theorem opening_enters (hpoint : (w.procs p).point = .opening owner lock)
    (hentry : w.entry = some ⟨.file text, lock, stamp⟩) : Enters staleAfterMs identity p w :=
  comes_head (v := w.setPoint p (.writing owner lock)) (r := none)
    (by simp [proceed, hpoint, hentry, goTo]) (writing_enters (setPoint_same _) hentry)

theorem creating_enters (hpoint : (w.procs p).point = .creating owner)
    (hentry : w.entry = none) : Enters staleAfterMs identity p w :=
  comes_head (r := none)
    (v := { w with entry := some ⟨.file "", identity, w.clock⟩ }.setPoint p
      (.opening owner identity))
    (by simp [proceed, hpoint, hentry, createNew, goTo]) (opening_enters (setPoint_same _) rfl)

/-- **A process that finds the sidecar free and no lock gets it.** -/
theorem trying_enters (hpoint : (w.procs p).point = .trying owner) (hfree : w.sidecar = none)
    (hentry : w.entry = none) : Enters staleAfterMs identity p w :=
  comes_head (v := { w with sidecar := some p }.setPoint p (.creating owner)) (r := none)
    (by simp [proceed, hpoint, hfree, goTo]) (creating_enters (setPoint_same _) hentry)

/-- What the quarantine shows is the entry that was decided on. -/
theorem sameIdentityAs_self (seen : TransactionLockSnapshot) : seen.sameIdentityAs seen = true := by
  simp [TransactionLockSnapshot.sameIdentityAs]

theorem sweeping_enters (hpoint : (w.procs p).point = .sweeping owner seen sequence)
    (hentry : w.entry = none) : Enters staleAfterMs identity p w :=
  comes_head (v := (w.setStale p sequence none).left p (.trying owner)) (r := none)
    (by simp [proceed, hpoint, leaveTo, left])
    (trying_enters (left_same _) rfl hentry)

theorem verifying_enters (hpoint : (w.procs p).point = .verifying owner seen sequence)
    (hentry : w.entry = none) (hstale : w.stale p sequence = some e)
    (hseen : transactionLockSnapshot w.clock e = some seen) : Enters staleAfterMs identity p w :=
  comes_head (v := w.setPoint p (.sweeping owner seen sequence)) (r := none)
    (by simp [proceed, hpoint, hstale, hseen, sameIdentityAs_self, goTo])
    (sweeping_enters (setPoint_same _) hentry)

theorem quarantining_enters (hpoint : (w.procs p).point = .quarantining owner seen sequence)
    (hentry : w.entry = some e) (hseen : transactionLockSnapshot w.clock e = some seen)
    (honto : renamesOnto e (w.stale p sequence) = true) : Enters staleAfterMs identity p w :=
  comes_head (r := none)
    (v := ({ w with entry := none }.setStale p sequence (some e)).setPoint p
      (.verifying owner seen sequence))
    (by simp [proceed, hpoint, hentry, honto, goTo])
    (verifying_enters (e := e) (setPoint_same _) rfl (by simp [setPoint, setProc, setStale]) hseen)

theorem authorizing_enters (hpoint : (w.procs p).point = .authorizing owner seen sequence)
    (hentry : w.entry = some e) (hseen : transactionLockSnapshot w.clock e = some seen)
    (hidentity : e.identity = seen.identity)
    (honto : renamesOnto e (w.stale p sequence) = true) : Enters staleAfterMs identity p w :=
  comes_head (v := w.setPoint p (.quarantining owner seen sequence)) (r := none)
    (by simp [proceed, hpoint, hentry, hidentity, goTo])
    (quarantining_enters (setPoint_same _) hentry hseen honto)

/-- What a process that finds `e` sees of it; it has outlived the threshold. -/
structure Orphan (w : TxWorld ι) (staleAfterMs : Nat) (e : LockFile)
    (seen : TransactionLockSnapshot) : Prop where
  stands : w.entry = some e
  shown : transactionLockSnapshot w.clock e = some seen
  identity : e.identity = seen.identity
  file : ∃ owner, seen.kind = .file owner
  outlives : seen.outlives staleAfterMs = true
  /-- the quarantine names of the process take it -/
  onto : ∀ sequence, renamesOnto e (w.stale p sequence) = true

omit [DecidableEq ι] in
theorem Orphan.congr (h : w.Orphan (p := p) staleAfterMs e seen) (hentry : u.entry = w.entry)
    (hclock : u.clock = w.clock) (hstale : u.stale = w.stale) :
    u.Orphan (p := p) staleAfterMs e seen where
  stands := hentry.trans h.stands
  shown := by rw [hclock]; exact h.shown
  identity := h.identity
  file := h.file
  outlives := h.outlives
  onto := by rw [hstale]; exact h.onto

theorem confirming_enters (hpoint : (w.procs p).point = .confirming owner seen)
    (h : w.Orphan (p := p) staleAfterMs e seen) : Enters staleAfterMs identity p w := by
  obtain ⟨text, hkind⟩ := h.file
  have hthere : ((w.setProc p ⟨.authorizing owner seen (w.procs p).sequence,
      (w.procs p).sequence + 1⟩).procs p).point =
      .authorizing owner seen (w.procs p).sequence := by simp
  refine comes_head (r := none)
    (v := w.setProc p ⟨.authorizing owner seen (w.procs p).sequence, (w.procs p).sequence + 1⟩)
    ?_ (authorizing_enters hthere h.stands h.shown h.identity (h.onto _))
  simp [proceed, hpoint, h.stands, h.shown, sameIdentityAs_self, h.outlives, hkind]

theorem judging_enters (hpoint : (w.procs p).point = .judging owner seen)
    (h : w.Orphan (p := p) staleAfterMs e seen) : Enters staleAfterMs identity p w :=
  comes_head (v := w.setPoint p (.confirming owner seen)) (r := none)
    (by simp [proceed, hpoint, h.outlives, goTo])
    (confirming_enters (setPoint_same _) (h.congr rfl rfl rfl))

theorem observing_enters (hpoint : (w.procs p).point = .observing owner)
    (h : w.Orphan (p := p) staleAfterMs e seen) : Enters staleAfterMs identity p w :=
  comes_head (v := w.setPoint p (.judging owner seen)) (r := none)
    (by simp [proceed, hpoint, h.stands, h.shown, goTo])
    (judging_enters (setPoint_same _) (h.congr rfl rfl rfl))

theorem creating_passes (hpoint : (w.procs p).point = .creating owner)
    (h : w.Orphan (p := p) staleAfterMs e seen) : Enters staleAfterMs identity p w :=
  comes_head (v := w.setPoint p (.observing owner)) (r := none)
    (by simp [proceed, hpoint, h.stands, createNew])
    (observing_enters (setPoint_same _) (h.congr rfl rfl rfl))

/-- **An orphan blocks nobody**: a process that finds the sidecar free walks past it. -/
theorem trying_passes (hpoint : (w.procs p).point = .trying owner) (hfree : w.sidecar = none)
    (h : w.Orphan (p := p) staleAfterMs e seen) : Enters staleAfterMs identity p w :=
  comes_head (v := { w with sidecar := some p }.setPoint p (.creating owner)) (r := none)
    (by simp [proceed, hpoint, hfree, goTo])
    (creating_passes (setPoint_same _) (h.congr rfl rfl rfl))

omit [DecidableEq ι] in
/-- In a legible world whatever stands long enough is an orphan. -/
theorem Legible.orphan (hw : Legible w) (hentry : w.entry = some e) {age : Nat}
    (hage : ageMs w.clock e.stamp = some age) (hlong : staleAfterMs < age) :
    ∃ seen, w.Orphan (p := p) staleAfterMs e seen := by
  have hread := hw.entry e hentry
  obtain ⟨owner, hshown⟩ := snapshot_of_readable hread w.clock
  refine ⟨_, hentry, hshown, rfl, ⟨owner, rfl⟩, ?_, fun sequence => ?_⟩
  · simpa [TransactionLockSnapshot.outlives, hage] using hlong
  · obtain ⟨text, hkind, -⟩ := hread
    cases hstale : w.stale p sequence with
    | none => rfl
    | some target =>
      obtain ⟨text', hkind', -⟩ := hw.stale p sequence target hstale
      simp [renamesOnto, hkind, hkind', TransactionLockKind.isDirectory]

theorem Legible.enters (hw : Legible w) (hpoint : (w.procs p).point = .trying owner)
    (hfree : w.sidecar = none)
    (hold : ∀ e, w.entry = some e →
      ∃ age, ageMs w.clock e.stamp = some age ∧ staleAfterMs < age) :
    Enters staleAfterMs identity p w := by
  cases hentry : w.entry with
  | none => exact trying_enters hpoint hfree hentry
  | some e =>
    obtain ⟨age, hage, hlong⟩ := hold e hentry
    obtain ⟨seen, horphan⟩ := hw.orphan (p := p) hentry hage hlong
    exact trying_passes hpoint hfree horphan

/-! ## A contender gives way -/

/-- How many calls are left, at most, before the sidecar is given back or the lock is had. -/
def rank : TxPoint → Nat
  | .creating _ => 12
  | .observing _ => 11
  | .judging _ _ => 10
  | .confirming _ _ => 9
  | .authorizing _ _ _ => 8
  | .quarantining _ _ _ => 7
  | .verifying _ _ _ => 6
  | .recreating _ => 5
  | .opening _ _ => 4
  | .writing _ _ => 3
  | .undoing _ _ | .sealing _ _ | .sweeping _ _ _ => 2
  | .erasing _ _ | .resting _ _ => 1
  | _ => 0

/-- Gone from the sidecar, inside, or closer to one of them. -/
def Descends (w : TxWorld ι) (p : ι) (u : TxWorld ι) : Prop :=
  u.sidecar = none ∨ (u.procs p).point.isInside ∨
    ((u.procs p).point.holds ∧ rank (u.procs p).point < rank (w.procs p).point)

theorem goTo_descends {point : TxPoint}
    (h : point.isInside ∨ (point.holds ∧ rank point < rank (w.procs p).point)) :
    ∃ u r, v.goTo p point = some (u, r) ∧ w.Descends p u :=
  ⟨_, _, rfl, .inr (by simpa using h)⟩

theorem leaveTo_descends {point : TxPoint} {report : Option TxReport} :
    ∃ u r, v.leaveTo p point report = some (u, r) ∧ w.Descends p u :=
  ⟨_, _, rfl, .inl rfl⟩

theorem createNew_descends {occupied : TxWorld ι} (hrank : 4 < rank (w.procs p).point)
    (hoccupied : w.Descends p occupied) :
    ∃ u r, w.createNew p owner identity occupied = some (u, r) ∧ w.Descends p u := by
  unfold createNew
  split
  · exact goTo_descends (.inr ⟨rfl, hrank⟩)
  · exact ⟨_, _, rfl, hoccupied⟩

/-- One call of a contender that has the sidecar. -/
theorem proceed_descends (hp : (w.procs p).point.holds)
    (hout : (w.procs p).point.isInside = false) :
    ∃ u r, w.proceed staleAfterMs p identity = some (u, r) ∧ w.Descends p u := by
  unfold proceed
  cases hpoint : (w.procs p).point with
  | idle | trying => simp [hpoint, TxPoint.holds] at hp
  | inside | releasing | removing | unlinking => simp [hpoint, TxPoint.isInside] at hout
  | creating owner =>
    refine createNew_descends (by simp [rank, hpoint]) (.inr (.inr ?_))
    simp [TxPoint.holds, rank, hpoint]
  | recreating owner => exact createNew_descends (by simp [rank, hpoint]) (.inl rfl)
  | writing owner lock => exact goTo_descends (.inr (by simp [TxPoint.holds, rank, hpoint]))
  | erasing | sweeping | resting => exact leaveTo_descends
  | opening owner lock | undoing owner lock =>
    dsimp only
    split
    · exact goTo_descends (.inr (by simp [TxPoint.holds, rank, hpoint]))
    · exact leaveTo_descends
  | sealing owner lock =>
    dsimp only
    split
    · exact ⟨_, _, rfl, .inr (.inl (by simp [TxPoint.isInside]))⟩
    · exact leaveTo_descends
  | observing owner =>
    dsimp only
    split
    · exact goTo_descends (.inr (by simp [TxPoint.holds, rank, hpoint]))
    · split
      · exact goTo_descends (.inr (by simp [TxPoint.holds, rank, hpoint]))
      · exact leaveTo_descends
  | judging owner seen =>
    dsimp only
    split <;> exact goTo_descends (.inr (by simp [TxPoint.holds, rank, hpoint]))
  | confirming owner decided =>
    have hauthorizing (confirmed : TransactionLockSnapshot) :
        ∃ (u : TxWorld ι) (r : Option TxReport),
          some (w.setProc p ⟨.authorizing owner confirmed (w.procs p).sequence,
            (w.procs p).sequence + 1⟩, none) = some (u, r) ∧ w.Descends p u :=
      ⟨_, _, rfl, .inr (.inr (by simp [TxPoint.holds, rank, hpoint]))⟩
    have hresting : ∃ u r, w.goTo p (.resting owner decided) = some (u, r) ∧ w.Descends p u :=
      goTo_descends (.inr (by simp [TxPoint.holds, rank, hpoint]))
    dsimp only
    split
    · exact leaveTo_descends
    · split
      · exact leaveTo_descends
      · split
        · split
          · exact hauthorizing _
          · exact hauthorizing _
          all_goals exact hresting
        · exact hresting
  | authorizing owner confirmed sequence | quarantining owner confirmed sequence =>
    dsimp only
    split
    · exact leaveTo_descends
    · split
      · exact goTo_descends (.inr (by simp [TxPoint.holds, rank, hpoint]))
      · exact leaveTo_descends
  | verifying owner confirmed sequence =>
    dsimp only
    split
    · exact leaveTo_descends
    · split
      · exact goTo_descends (.inr (by simp [TxPoint.holds, rank, hpoint]))
      · exact leaveTo_descends

/-- **A contender that has the sidecar gives it back or gets the lock.** -/
theorem gives_way (hp : (w.procs p).point.holds) (hout : (w.procs p).point.isInside = false) :
    Comes staleAfterMs identity p w fun u => u.sidecar = none ∨ (u.procs p).point.isInside := by
  induction hn : rank (w.procs p).point using Nat.strong_induction_on generalizing w with
  | _ n ih =>
    obtain ⟨u, r, hu, hless⟩ :
        ∃ u r, w.proceed staleAfterMs p identity = some (u, r) ∧ w.Descends p u :=
      proceed_descends hp hout
    refine comes_head hu ?_
    rcases hless with hfree | hin | ⟨hholds, hrank⟩
    · exact comes_here (.inl hfree)
    · exact comes_here (.inr hin)
    · cases hin : (u.procs p).point.isInside with
      | true => exact comes_here (.inr hin)
      | false => exact ih _ (hn ▸ hrank) hholds hin rfl

/-! ## Every run -/

/-- Nobody has begun; what an earlier run left may stand there. -/
structure Opens (w : TxWorld ι) : Prop where
  free : w.sidecar = none
  idle : ∀ p, (w.procs p).point = .idle

omit [DecidableEq ι] in
theorem Opens.kept (h : Opens w) : TxKept w where
  holder p := by simp [h.free, h.idle p, TxPoint.holds]
  knows p := by simp [h.idle p, TxPoint.Knows]

theorem step_turn {a : TxAction ι} (h : w.step staleAfterMs a = some (u, r)) :
    (∃ p move, a = .move p move ∧ w.Turn p u r) ∨
      ((∃ clock, u = { w with clock }) ∧ r = none) := by
  cases a with
  | move p move => exact .inl ⟨p, move, rfl, moved_turn h⟩
  | tick clock =>
    cases h
    exact .inr ⟨⟨clock, rfl⟩, rfl⟩

theorem next_turn {a : TxAction ι} (h : next staleAfterMs w a = some u) :
    (∃ p r, w.Turn p u r) ∨ ∃ clock, u = { w with clock } := by
  simp only [next, Option.map_eq_some_iff] at h
  obtain ⟨⟨u, r⟩, hstep, rfl⟩ := h
  rcases step_turn hstep with ⟨p, -, -, hturn⟩ | ⟨hclock, -⟩
  · exact .inl ⟨p, r, hturn⟩
  · exact .inr hclock

theorem kept_of_reach {w₀ : TxWorld ι} (h0 : Opens w₀)
    (h : Reach (next staleAfterMs) (fun _ _ => True) w₀ w) : TxKept w := by
  refine h.invariant h0.kept fun t a u ht _ hn => ?_
  rcases next_turn hn with ⟨p, r, hturn⟩ | ⟨clock, rfl⟩
  · exact hturn.kept ht
  · exact ⟨ht.holder, ht.knows⟩

theorem legible_of_reach {w₀ : TxWorld ι} (h0 : Legible w₀)
    (h : Reach (next staleAfterMs) (fun _ _ => True) w₀ w) : Legible w := by
  refine h.invariant h0 fun t a u ht _ hn => ?_
  rcases next_turn hn with ⟨p, r, hturn⟩ | ⟨clock, rfl⟩
  · exact hturn.legible ht
  · exact ⟨ht.entry, ht.stale, ht.caller⟩

/-- While `p` has the sidecar no other process touches a name. -/
theorem TxKept.apart (hkept : TxKept w) (hp : (w.procs p).point.holds) (hqp : q ≠ p)
    (h : w.Turn q u r) : u.entry = w.entry ∧ u.stale = w.stale := by
  refine h.apart ?_
  by_contra hq
  have hmine := (hkept.holder p).2 hp
  have htheirs := (hkept.holder q).2 (by simpa using hq)
  exact hqp (Option.some.inj (htheirs.symm.trans hmine))

/-- A process inside touches the names by its release only. -/
theorem Turn.inside (h : w.Turn p u r) (hp : (w.procs p).point.isInside) :
    (u.entry = w.entry ∧ u.stale = w.stale) ∨ r = some .released := by
  cases h with
  | outside | takes | onward | leaves | crashes => exact .inl ⟨rfl, rfl⟩
  | releases => exact .inr rfl
  | creates _ hpoint => rcases hpoint with hpoint | hpoint <;> simp [hpoint, TxPoint.isInside] at hp
  | writes hpoint | fills hpoint | erases hpoint | quarantines hpoint | sweeps hpoint =>
    simp [hpoint, TxPoint.isInside] at hp

/-- A release that reports success. -/
theorem Turn.released (h : w.Turn p u (some .released)) :
    ∃ owner lock dropping, (w.procs p).point = .unlinking owner lock dropping ∧
      u = { w with entry := none }.left p .idle := by
  generalize hr : some TxReport.released = r at h
  cases h with
  | outside _ _ _ hno | onward _ _ _ _ hno | leaves _ _ _ hno => exact absurd hr.symm hno
  | releases hpoint => exact ⟨_, _, _, hpoint, rfl⟩
  | _ => cases hr

/-- The process is between a successful acquire and its release. -/
def Inside (w : TxWorld ι) (p : ι) : Prop := (w.procs p).point.isInside

end TxWorld

open TxWorld

/-- **The transaction lock.** In every run, whatever the order of the calls, the crashes and the
ages: at most one process is inside; while one is, its own release is the only move that touches
the lock or a quarantined one; a release that reports success removed the file its own acquire
created; and a process that tries gets past a lock left behind, or past a contender. -/
theorem transaction_lock {w₀ w : TxWorld ι} (h0 : w₀.Opens)
    (h : Reach (TxWorld.next staleAfterMs) (fun _ _ => True) w₀ w) :
    (∀ p q, w.Inside p → w.Inside q → p = q) ∧
    (∀ p a u r, w.Inside p → w.step staleAfterMs a = some (u, r) →
      (u.entry = w.entry ∧ u.stale = w.stale) ∨ ∃ move, a = .move p move ∧ r = some .released) ∧
    (∀ a u, w.step staleAfterMs a = some (u, some .released) →
      ∃ p move owner lock stamp, a = .move p move ∧ w.Inside p ∧
        (w.procs p).point.token = some (owner, lock) ∧
        w.entry = some ⟨.file owner, lock, stamp⟩ ∧ u.entry = none ∧ u.stale = w.stale) ∧
    (Legible w₀ → ∀ p owner, (w.procs p).point = .trying owner →
      (w.sidecar = none → ∀ clock, (∀ e, w.entry = some e →
          ∃ age, ageMs clock e.stamp = some age ∧ staleAfterMs < age) →
        ∀ identity, Comes staleAfterMs identity p { w with clock } (·.Inside p)) ∧
      (∀ q, w.sidecar = some q → ¬ w.Inside q → ∀ identity,
        Comes staleAfterMs identity q w fun u => u.sidecar = none ∨ u.Inside q)) := by
  have hkept := kept_of_reach h0 h
  refine ⟨fun p q hp hq => ?_, fun p a u r hp hstep => ?_, fun a u hstep => ?_,
    fun hlegible p owner hpoint => ⟨fun hfree clock hold identity => ?_, fun q hq hout identity => ?_⟩⟩
  · have hpside := (hkept.holder p).2 (TxPoint.holds_of_isInside hp)
    have hqside := (hkept.holder q).2 (TxPoint.holds_of_isInside hq)
    exact Option.some.inj (hpside.symm.trans hqside)
  · rcases step_turn hstep with ⟨q, move, rfl, hturn⟩ | ⟨⟨clock, rfl⟩, -⟩
    · by_cases hqp : q = p
      · subst hqp
        rcases hturn.inside hp with hsame | hrel
        · exact .inl hsame
        · exact .inr ⟨move, rfl, hrel⟩
      · exact .inl (hkept.apart (TxPoint.holds_of_isInside hp) hqp hturn)
    · exact .inl ⟨rfl, rfl⟩
  · rcases step_turn hstep with ⟨p, move, rfl, hturn⟩ | ⟨-, hno⟩
    · obtain ⟨owner, lock, dropping, hpoint, rfl⟩ := hturn.released
      have hknows := hkept.knows p
      rw [hpoint] at hknows
      obtain ⟨stamp, hentry⟩ := hknows
      exact ⟨p, move, owner, lock, stamp, rfl, by rw [Inside, hpoint]; rfl, by rw [hpoint]; rfl,
        hentry, rfl, rfl⟩
    · cases hno
  · have hw := legible_of_reach hlegible h
    exact Legible.enters (w := { w with clock }) ⟨hw.entry, hw.stale, hw.caller⟩ hpoint hfree hold
  · refine gives_way ((hkept.holder q).1 hq) ?_
    simpa [Inside] using hout

/-- A lock left behind half written, and two processes that find it an hour later. -/
def orphaned : TxWorld Nat where
  entry := some ⟨.file "41", 9, 0⟩
  stale _ _ := none
  sidecar := none
  clock := 3600000000000
  procs _ := {}

/-- The first to come gets past it while the second waits for the sidecar. -/
def pastOrphan : List (TxAction Nat) :=
  [.move 0 (.begin "7:0"), .move 1 (.begin "8:0"), .move 0 (.go 5), .move 1 (.go 6)] ++
    List.replicate 13 (.move 0 (.go 5)) ++ [.move 1 (.go 6)]

theorem transaction_lock_orphaned : ∃ w : TxWorld Nat, w.Inside 0 ∧
    (w.procs 1).point = .trying "8:0" ∧ (∀ q, w.Inside q → 0 = q) := by
  have hrun : ((exec (guarded (fun _ _ => true) (TxWorld.next 30000)) orphaned pastOrphan).any
      fun w => (w.procs 0).point.isInside && decide ((w.procs 1).point = .trying "8:0")) = true := by
    decide +kernel
  obtain ⟨w, hreach, hw⟩ := exec_any hrun
  simp only [Bool.and_eq_true, decide_eq_true_eq] at hw
  have h0 : orphaned.Opens := ⟨rfl, fun _ => rfl⟩
  exact ⟨w, hw.1, hw.2,
    fun q => (transaction_lock h0 (hreach.mono fun _ _ _ => trivial)).1 0 q hw.1⟩

end Orchestrail
